import CaptureHPC.Spec.EventQueue

/-!
# Events reach the monitors exactly

What is delivered, the event that the handler holds and the queue are the accepted events, in
order (`Ordered.order`), and a request has filled its buffer with the events it delivers
(`Filled`). A walk over a reply finds these events (`walk_stream`). Every request is answered
(`Ordered.answers`), and the handler returns for a reason (`stops_of_handler`).
-/

namespace CaptureHPC.Driver

open Lib

variable {L : Layout UInt8}

/-- The bytes of events that follow each other. -/
def eventStream (es : List (Event L)) : List UInt8 := stream (es.map Event.toRecord)

theorem eventStream_concat (es : List (Event L)) (e : Event L) :
    eventStream (es ++ [e]) = eventStream es ++ e.bytes := by
  rw [eventStream, List.map_append, stream_append, List.map_singleton, stream_singleton]
  rfl

/-- Bytes are copied behind what is there. -/
theorem copyMemory_behind {pre post source : List UInt8} :
    copyMemory (pre ++ post) pre.length source source.length = pre ++ source ++ post.drop source.length := by
  rw [copyMemory, List.take_left, List.take_length, List.drop_append]
  rw [List.drop_eq_nil_of_le (Nat.le_add_right ..), Nat.add_sub_cancel_left, List.nil_append]

section walk

/-- A walk from where the next event begins. -/
theorem walkFrom_stream {es : List (Event L)} (hes : es ≠ []) (pre rest : List UInt8) {fuel n : ℕ}
    (hfuel : es.length ≤ fuel) (hn : n = (pre ++ eventStream es).length) (hlt : n < uintSize) :
    walkFrom L (pre ++ (eventStream es ++ rest)) n fuel pre.length = some (es.map (·.bytes)) := by
  induction es generalizing pre fuel with
  | nil => exact absurd rfl hes
  | cons e es ih =>
    obtain ⟨fuel, rfl⟩ : ∃ k, fuel = k + 1 := ⟨fuel - 1, by rw [List.length_cons] at hfuel; omega⟩
    have hcons : eventStream (e :: es) = e.bytes ++ eventStream es := by
      rw [eventStream, List.map_cons, stream_cons]
      rfl
    have hsplit : pre ++ (eventStream (e :: es) ++ rest) = pre ++ (e.bytes ++ (eventStream es ++ rest)) := by
      rw [hcons, List.append_assoc]
    have hlen : n = pre.length + e.size + (eventStream es).length := by
      rw [hn, hcons, List.length_append, List.length_append, e.length_bytes, Nat.add_assoc]
    have hsize : L.headerSize ≤ e.size := Nat.le_add_right ..
    rw [hsplit, walkFrom, header_at, if_pos (by omega)]
    dsimp only
    have heq : L.headerSize + L.dataSize e.header = e.size := rfl
    rw [heq, if_pos (by omega), bytes_at, Nat.mod_eq_of_lt (by omega)]
    cases es with
    | nil =>
      have hend : ¬ pre.length + e.size < n := by
        have hnil : (eventStream ([] : List (Event L))).length = 0 := rfl
        omega
      rw [if_neg hend]
      rfl
    | cons e' es =>
      have hpos : 0 < (eventStream (e' :: es)).length := by
        have hle := length_le_stream ((e' :: es).map Event.toRecord)
        rw [List.length_map, List.length_cons] at hle
        exact Nat.lt_of_lt_of_le (Nat.succ_pos _) hle
      rw [if_pos (by omega)]
      have hpre : pre ++ (e.bytes ++ (eventStream (e' :: es) ++ rest)) =
          pre ++ e.bytes ++ (eventStream (e' :: es) ++ rest) := (List.append_assoc ..).symm
      have hoff : pre.length + e.size = (pre ++ e.bytes).length := by
        rw [List.length_append, e.length_bytes]
      have hrest := ih (by simp) (pre ++ e.bytes) (Nat.le_of_succ_le_succ hfuel)
        (by rw [hn, hcons, List.append_assoc])
      rw [hpre, hoff, hrest]
      rfl

/-- **A walk finds the events**, and reads nothing behind the bytes returned. -/
theorem walk_stream (es : List (Event L)) (rest : List UInt8) (hlt : (eventStream es).length < uintSize) :
    walk L (eventStream es ++ rest) (eventStream es).length = some (es.map (·.bytes)) := by
  unfold walk
  cases es with
  | nil =>
    have hnil : ¬ L.headerSize ≤ (eventStream ([] : List (Event L))).length := Nat.not_le.2 L.headerSize_pos
    rw [if_neg hnil]
    rfl
  | cons e es =>
    have hle := length_le_stream ((e :: es).map Event.toRecord)
    rw [List.length_map] at hle
    have hhead : L.headerSize ≤ (eventStream (e :: es)).length := by
      have hcons : eventStream (e :: es) = e.bytes ++ eventStream es := stream_cons ..
      rw [hcons, List.length_append, e.length_bytes]
      exact Nat.le_trans (Nat.le_add_right ..) (Nat.le_add_right ..)
    rw [if_pos hhead]
    exact walkFrom_stream (by simp) [] rest hle rfl hlt

end walk

namespace EventQueue

/-- The event that the handler holds. -/
def held (r : Request L) : List (Event L) :=
  match r.point with
  | .holding e => [e]
  | _ => []

/-- What has been delivered: the events of the replies, and those in the buffer of the request. -/
def delivered (s : EventQueue L) : List (Event L) :=
  s.replies.flatMap Reply.events ++ (s.request.map Request.events).getD []

def inHand (s : EventQueue L) : List (Event L) := (s.request.map held).getD []

/-- The buffer begins with the bytes of the events. -/
def Holds (buffer : List UInt8) (used : ℕ) (es : List (Event L)) : Prop :=
  used = (eventStream es).length ∧ used < uintSize ∧ ∃ rest, buffer = eventStream es ++ rest

/-- What every step keeps of a request. -/
structure Filled (s : EventQueue L) (r : Request L) : Prop where
  holds : Holds r.outputBuffer r.bufferSpaceUsed r.events
  fits : r.bufferSpaceUsed ≤ r.bufferSpace
  space : r.bufferSpace < uintSize
  removing : r.point = .removing → s.queue ≠ []

/-- What every step keeps. -/
structure Ordered (s : EventQueue L) : Prop where
  order : s.delivered ++ s.inHand ++ s.queue = s.accepted
  request : ∀ r, s.request = some r → s.Filled r
  replies : ∀ r ∈ s.replies, Holds r.buffer r.bytesReturned r.events

theorem Ordered.start : Ordered ({} : EventQueue L) where
  order := rfl
  request _ h := nomatch h
  replies _ h := nomatch h

variable {s : EventQueue L} {r : Request L} {e : Event L}

theorem Ordered.append (h : s.Ordered) (e : Event L) :
    Ordered { s with queue := s.queue ++ [e], accepted := s.accepted ++ [e] } where
  order := by
    have ho := h.order
    rw [← ho, List.append_assoc _ s.queue [e]]
    rfl
  request r hr := by
    have hf := h.request r hr
    exact ⟨hf.holds, hf.fits, hf.space, fun _ => by simp⟩
  replies := h.replies

/-- A request begins. -/
theorem Ordered.begin (h : s.Ordered) (hnone : s.request = none) {buffer : List UInt8}
    (hlt : buffer.length < uintSize) :
    Ordered { s with request := some ⟨buffer.length, 0, buffer, .looking, []⟩ } where
  order := by
    have ho := h.order
    rw [delivered, inHand, hnone] at ho
    exact ho
  request r hr := by
    obtain rfl := Option.some.inj hr
    exact ⟨⟨rfl, Nat.zero_lt_of_lt hlt, buffer, rfl⟩, Nat.zero_le _, hlt, fun hp => nomatch hp⟩
  replies := h.replies

/-- The handler returns, and what it holds is in the queue again. -/
theorem Ordered.reply {queue : List (Event L)} (h : s.Ordered) (hr : s.request = some r)
    (hq : queue = held r ++ s.queue) : Ordered (({ s with queue := queue } : EventQueue L).reply r) where
  order := by
    have ho := h.order
    rw [delivered, inHand, hr] at ho
    rw [← ho, delivered, inHand, hq]
    simp [EventQueue.reply]
  request _ hr' := nomatch hr'
  replies r' hr' := by
    rcases List.mem_append.1 hr' with hmem | hmem
    · exact h.replies r' hmem
    · rw [List.mem_singleton.1 hmem]
      exact (h.request r hr).holds

/-- A small buffer is answered at once. -/
theorem Ordered.refuse (h : s.Ordered) (hnone : s.request = none) {buffer : List UInt8}
    (hlt : buffer.length < uintSize) : (s.reply ⟨buffer.length, 0, buffer, .looking, []⟩).Ordered where
  order := by
    have ho := h.order
    rw [delivered, inHand, hnone] at ho
    refine Eq.trans ?_ ho
    rw [delivered, inHand]
    simp [EventQueue.reply]
  request _ hr := nomatch hr
  replies r' hr' := by
    rcases List.mem_append.1 hr' with hmem | hmem
    · exact h.replies r' hmem
    · rw [List.mem_singleton.1 hmem]
      exact ⟨rfl, Nat.zero_lt_of_lt hlt, buffer, rfl⟩

theorem Ordered.goOn (h : s.Ordered) (hr : s.request = some r) (hp : r.point = .looking)
    (hq : s.queue ≠ []) : Ordered { s with request := some { r with point := .removing } } where
  order := by
    have ho := h.order
    rw [delivered, inHand, hr] at ho
    have hheld : held r = [] := by rw [held, hp]
    rw [Option.map_some, Option.map_some, Option.getD_some, Option.getD_some, hheld] at ho
    exact ho
  request r' hr' := by
    obtain rfl := Option.some.inj hr'
    have hf := h.request r hr
    exact ⟨hf.holds, hf.fits, hf.space, fun _ => hq⟩
  replies := h.replies

theorem Ordered.remove {rest : List (Event L)} (h : s.Ordered) (hr : s.request = some r) (hp : r.point = .removing)
    (hq : s.queue = e :: rest) :
    Ordered { s with queue := rest, request := some { r with point := .holding e } } where
  order := by
    have ho := h.order
    rw [delivered, inHand, hr, hq] at ho
    have hheld : held r = [] := by rw [held, hp]
    rw [Option.map_some, Option.map_some, Option.getD_some, Option.getD_some, hheld, List.append_nil] at ho
    rw [← ho, delivered, inHand]
    simp [held]
  request r' hr' := by
    obtain rfl := Option.some.inj hr'
    have hf := h.request r hr
    exact ⟨hf.holds, hf.fits, hf.space, fun hp => nomatch hp⟩
  replies := h.replies

theorem Holds.copy {buffer : List UInt8} {used : ℕ} {es : List (Event L)} (h : Holds buffer used es)
    (e : Event L) (hlt : used + e.size < uintSize) :
    Holds (copyMemory buffer used e.bytes e.size) (used + e.size) (es ++ [e]) := by
  obtain ⟨hused, -, rest, hbuffer⟩ := h
  refine ⟨?_, hlt, rest.drop e.size, ?_⟩
  · rw [eventStream_concat, List.length_append, e.length_bytes, hused]
  · rw [hbuffer, hused, eventStream_concat, ← e.length_bytes, copyMemory_behind]

theorem Ordered.place (h : s.Ordered) (hr : s.request = some r) (hp : r.point = .holding e) :
    (s.place r e).Ordered := by
  have hf := h.request r hr
  have hheld : held r = [e] := by rw [held, hp]
  unfold EventQueue.place
  rw [Nat.mod_eq_of_lt e.size_lt]
  dsimp only
  split_ifs with hfits
  · have hle : r.bufferSpaceUsed + e.size ≤ r.bufferSpace := by
      have := hf.fits
      omega
    have hlt : r.bufferSpaceUsed + e.size < uintSize := Nat.lt_of_le_of_lt hle hf.space
    rw [Nat.mod_eq_of_lt hlt]
    refine ⟨?_, fun r' hr' => ?_, h.replies⟩
    · have ho := h.order
      rw [delivered, inHand, hr] at ho
      rw [Option.map_some, Option.map_some, Option.getD_some, Option.getD_some, hheld] at ho
      rw [← ho, delivered, inHand]
      simp [held]
    · obtain rfl := Option.some.inj hr'
      exact ⟨hf.holds.copy e hlt, hle, hf.space, fun hp => nomatch hp⟩
  · exact h.reply hr (by rw [hheld]; rfl)

theorem goesOn_queue (h : s.goesOn r = true) : s.queue ≠ [] := by
  rw [goesOn, Bool.and_eq_true, Bool.and_eq_true] at h
  intro hnil
  rw [hnil] at h
  exact absurd h.1.1 (by simp)

/-- **One step.** -/
theorem Ordered.step {m : Monitor} {s s' : EventQueue m.layout} {a : DriverStep m.layout} (h : s.Ordered)
    (hstep : s.step m a = some s') : s'.Ordered := by
  cases a with
  | append e => exact Option.some.inj hstep ▸ h.append e
  | getEvents buffer =>
    simp only [EventQueue.step, EventQueue.getEvents] at hstep
    split_ifs at hstep with hguard hsmall
    · rw [Bool.and_eq_true, Option.isNone_iff_eq_none, decide_eq_true_eq] at hguard
      exact Option.some.inj hstep ▸ h.refuse hguard.1 hguard.2
    · rw [Bool.and_eq_true, Option.isNone_iff_eq_none, decide_eq_true_eq] at hguard
      exact Option.some.inj hstep ▸ h.begin hguard.1 hguard.2
  | handler =>
    simp only [EventQueue.step, handler] at hstep
    split at hstep
    · exact absurd hstep (by simp)
    · rename_i r hr
      split at hstep
      · rename_i hp
        split_ifs at hstep with hgo
        · exact Option.some.inj hstep ▸ h.goOn hr hp (goesOn_queue hgo)
        · have hq : s.queue = held r ++ s.queue := by rw [held, hp, List.nil_append]
          exact Option.some.inj hstep ▸ h.reply hr hq
      · rename_i hp
        split at hstep
        · rename_i e rest hq
          exact Option.some.inj hstep ▸ h.remove hr hp hq
        · exact absurd hstep (by simp)
      · rename_i e hp
        exact Option.some.inj hstep ▸ h.place hr hp

theorem ordered_of_reaches {m : Monitor} {s : EventQueue m.layout} (h : Reaches (step m) anyStep {} s) : s.Ordered :=
  h.invariant Ordered.start fun _ _ _ hs _ hstep => hs.step hstep

/-- The handler never finds the list empty when it removes an event. -/
theorem handler_isSome (h : s.Ordered) (hr : s.request = some r) : s.handler.isSome := by
  unfold handler
  rw [hr]
  dsimp only
  cases hp : r.point with
  | looking =>
    dsimp only
    split_ifs <;> rfl
  | removing =>
    cases hq : s.queue with
    | nil => exact absurd hq ((h.request r hr).removing hp)
    | cons e rest => rfl
  | holding e => rfl

/-! ## Answers -/

/-- How many steps the handler takes at most. An event that is copied makes up for the steps that fetch the next one. -/
def stepsLeft (r : Request L) : ℕ :=
  3 * (r.bufferSpace - r.bufferSpaceUsed) +
    match r.point with
    | .looking => 2
    | .removing => 1
    | .holding _ => 0

/-- **One step of the handler** answers the request, or leaves fewer steps. -/
theorem handler_cases {s' : EventQueue L} (h : s.Ordered) (hr : s.request = some r) (hstep : s.handler = some s') :
    (∃ queue, s' = ({ s with queue := queue } : EventQueue L).reply r) ∨
      s'.replies = s.replies ∧ ∃ r', s'.request = some r' ∧ stepsLeft r' < stepsLeft r := by
  have hf := h.request r hr
  unfold handler at hstep
  rw [hr] at hstep
  dsimp only at hstep
  split at hstep
  · rename_i hp
    split_ifs at hstep with hgo
    · obtain rfl := Option.some.inj hstep
      refine .inr ⟨rfl, _, rfl, ?_⟩
      rw [stepsLeft, stepsLeft, hp]
      exact Nat.add_lt_add_left (show 1 < 2 by decide) _
    · exact .inl ⟨s.queue, (Option.some.inj hstep).symm⟩
  · rename_i hp
    split at hstep
    · obtain rfl := Option.some.inj hstep
      refine .inr ⟨rfl, _, rfl, ?_⟩
      rw [stepsLeft, stepsLeft, hp]
      exact Nat.add_lt_add_left (show 0 < 1 by decide) _
    · cases hstep
  · rename_i e hp
    obtain rfl := Option.some.inj hstep
    unfold EventQueue.place
    rw [Nat.mod_eq_of_lt e.size_lt]
    dsimp only
    split_ifs with hfits
    · refine .inr ⟨rfl, _, rfl, ?_⟩
      have hpos : 0 < e.size := Nat.lt_of_lt_of_le L.headerSize_pos (Nat.le_add_right ..)
      have hfull := hf.fits
      have hspace := hf.space
      rw [stepsLeft, stepsLeft, hp, Nat.mod_eq_of_lt (by omega)]
      show 3 * (r.bufferSpace - (r.bufferSpaceUsed + e.size)) + 2 < 3 * (r.bufferSpace - r.bufferSpaceUsed) + 0
      omega
    · exact .inl ⟨e :: s.queue, rfl⟩

/-- The driver's handler takes this step. -/
def isHandler : DriverStep L → Bool
  | .handler => true
  | _ => false

/-- The request is answered: as long as there is no reply to it, whatever is appended meanwhile, the handler can take
its next step, and it has taken no more than `n`. -/
def Answers (m : Monitor) (n : ℕ) (s : EventQueue m.layout) : Prop :=
  ∀ as t, run (step m) s as = some t → t.replies.length = s.replies.length →
    (t.step m .handler).isSome ∧ as.countP isHandler ≤ n

section Answers

variable {m : Monitor} {s s' t : EventQueue m.layout} {r : Request m.layout}

/-- Replies stay. -/
theorem replies_step {a : DriverStep m.layout} (hstep : s.step m a = some s') :
    s.replies.length ≤ s'.replies.length := by
  have hreply : ∀ (u : EventQueue m.layout) (r : Request m.layout),
      u.replies.length ≤ (u.reply r).replies.length := by
    intro u r
    rw [EventQueue.reply, List.length_append]
    exact Nat.le_add_right ..
  cases a with
  | append e => exact Option.some.inj hstep ▸ le_rfl
  | getEvents buffer =>
    simp only [EventQueue.step, EventQueue.getEvents] at hstep
    split_ifs at hstep
    · exact Option.some.inj hstep ▸ hreply s _
    · exact Option.some.inj hstep ▸ le_rfl
  | handler =>
    simp only [EventQueue.step, handler] at hstep
    split at hstep
    · cases hstep
    · split at hstep
      · split_ifs at hstep
        · exact Option.some.inj hstep ▸ le_rfl
        · exact Option.some.inj hstep ▸ hreply s _
      · split at hstep
        · exact Option.some.inj hstep ▸ le_rfl
        · cases hstep
      · obtain rfl := Option.some.inj hstep
        unfold EventQueue.place
        dsimp only
        split_ifs
        · exact le_rfl
        · exact hreply _ _

theorem replies_run {as : List (DriverStep m.layout)} (hrun : run (step m) s as = some t) :
    s.replies.length ≤ t.replies.length := by
  induction as generalizing s with
  | nil =>
    obtain rfl := Option.some.inj hrun
    exact le_rfl
  | cons a as ih =>
    rw [run_cons, Option.bind_eq_some_iff] at hrun
    obtain ⟨s', hstep, hrun⟩ := hrun
    exact (replies_step hstep).trans (ih hrun)

/-- **Every request is answered.** -/
theorem Ordered.answers (h : s.Ordered) (hr : s.request = some r) : Answers m (stepsLeft r) s := by
  intro as t hrun hsame
  induction as generalizing s r with
  | nil =>
    obtain rfl := Option.some.inj hrun
    exact ⟨handler_isSome h hr, Nat.zero_le _⟩
  | cons a as ih =>
    rw [run_cons, Option.bind_eq_some_iff] at hrun
    obtain ⟨s', hstep, hrun⟩ := hrun
    have hle := replies_run hrun
    cases a with
    | append e =>
      obtain rfl := Option.some.inj hstep
      exact ih (h.append e) hr hrun hsame
    | getEvents buffer =>
      simp only [EventQueue.step, EventQueue.getEvents, hr, Option.isNone_some, Bool.false_and, Bool.false_eq_true,
        if_false] at hstep
      cases hstep
    | handler =>
      rcases handler_cases h hr hstep with ⟨queue, rfl⟩ | ⟨hreplies, r', hr', hlt⟩
      · rw [EventQueue.reply, List.length_append, List.length_singleton] at hle
        simp only at hle
        omega
      · obtain ⟨henabled, hcount⟩ := ih (h.step hstep) hr' hrun (hreplies ▸ hsame)
        refine ⟨henabled, ?_⟩
        rw [List.countP_cons_of_pos rfl]
        omega

theorem stepsLeft_le (r : Request L) : stepsLeft r ≤ 3 * r.bufferSpace + 2 := by
  unfold stepsLeft
  cases r.point <;> simp only <;> omega

theorem Answers.mono {n k : ℕ} (h : Answers m n s) (hle : n ≤ k) : Answers m k s :=
  fun as t hrun hsame => ⟨(h as t hrun hsame).1, (h as t hrun hsame).2.trans hle⟩

end Answers

/-! ## Why a handler returns -/

/-- Where it looks at the queue, that is empty or a header does not fit; or it holds an event that does not fit, and
that is at the head of the queue again. -/
def Stops (s s' : EventQueue L) (r : Request L) : Prop :=
  r.point = .looking ∧ (s.queue = [] ∨ r.bufferSpace - r.bufferSpaceUsed < L.headerSize) ∨
    ∃ e, r.point = .holding e ∧ s'.queue = e :: s.queue ∧ r.bufferSpace - r.bufferSpaceUsed < e.size

theorem not_goesOn (h : ¬ s.goesOn r = true) :
    s.queue = [] ∨ r.bufferSpace - r.bufferSpaceUsed < L.headerSize := by
  rw [goesOn, Bool.and_eq_true, Bool.and_eq_true, Bool.not_eq_true', decide_eq_true_eq, decide_eq_true_eq,
    List.isEmpty_eq_false_iff] at h
  have hpos := L.headerSize_pos
  by_cases hq : s.queue = []
  · exact .inl hq
  · exact .inr (by
      by_contra hle
      exact h ⟨⟨hq, by omega⟩, by omega⟩)

theorem stops_of_handler {s' : EventQueue L} (hstep : s.handler = some s') (hr : s.request = some r)
    (hdone : s'.request = none) : s.Stops s' r := by
  unfold handler at hstep
  rw [hr] at hstep
  dsimp only at hstep
  split at hstep
  · rename_i hp
    split_ifs at hstep with hgo
    · obtain rfl := Option.some.inj hstep
      exact nomatch hdone
    · exact .inl ⟨hp, not_goesOn hgo⟩
  · split at hstep
    · obtain rfl := Option.some.inj hstep
      exact nomatch hdone
    · exact absurd hstep (by simp)
  · rename_i e hp
    obtain rfl := Option.some.inj hstep
    unfold EventQueue.place at hdone
    dsimp only at hdone
    unfold Stops EventQueue.place
    rw [Nat.mod_eq_of_lt e.size_lt] at hdone ⊢
    split_ifs at hdone with hfits
    right
    dsimp only
    rw [if_neg hfits]
    exact ⟨e, hp, rfl, Nat.lt_of_not_le hfits⟩

/-- The events of a monitor are delivered exactly. -/
structure Exact (m : Monitor) (s : EventQueue m.layout) : Prop where
  /-- A reply consists of its events, and a walk over it finds them. -/
  replies : ∀ r ∈ s.replies, r.buffer.take r.bytesReturned = eventStream r.events ∧
    walk m.layout r.buffer r.bytesReturned = some (r.events.map (·.bytes))
  /-- Nothing is lost, doubled or reordered. -/
  order : s.delivered ++ s.inHand ++ s.queue = s.accepted
  /-- A request that is being handled is answered. -/
  answers : ∀ r, s.request = some r → Answers m (3 * r.bufferSpace + 2) s
  /-- The handler returns for a reason. -/
  stops : ∀ a s' r, s.step m a = some s' → s.request = some r → s'.request = none → s.Stops s' r
  /-- It refuses a request only when no header fits the buffer. -/
  refuses : ∀ buffer s', s.step m (.getEvents buffer) = some s' → s'.request = none →
    buffer.length < m.layout.headerSize

theorem exact_of_reaches {m : Monitor} {s : EventQueue m.layout} (h : Reaches (step m) anyStep {} s) : s.Exact m where
  replies r hr := by
    obtain ⟨hused, hlt, rest, hbuffer⟩ := (ordered_of_reaches h).replies r hr
    rw [hused] at hlt
    rw [hbuffer, hused, List.take_left]
    exact ⟨rfl, walk_stream r.events rest hlt⟩
  order := (ordered_of_reaches h).order
  answers r hr := ((ordered_of_reaches h).answers hr).mono (stepsLeft_le r)
  stops a s' r hstep hr hdone := by
    cases a with
    | append e =>
      obtain rfl := Option.some.inj hstep
      exact absurd (hr.symm.trans hdone) (by simp)
    | getEvents buffer =>
      simp only [EventQueue.step, EventQueue.getEvents, hr, Option.isNone_some, Bool.false_and, Bool.false_eq_true,
        if_false] at hstep
      exact absurd hstep (by simp)
    | handler => exact stops_of_handler hstep hr hdone
  refuses buffer s' hstep hdone := by
    simp only [EventQueue.step, EventQueue.getEvents] at hstep
    split_ifs at hstep with hguard hsmall
    · rw [Bool.and_eq_true, decide_eq_true_eq] at hsmall
      exact hsmall.2
    · obtain rfl := Option.some.inj hstep
      exact nomatch hdone

/-- **File and registry events are delivered exactly**, whatever is appended between the steps of the
requests. -/
theorem events_delivered :
    (∀ s, Reaches (step fileMonitor) anyStep {} s → s.Exact fileMonitor) ∧
      ∀ s, Reaches (step registryMonitor) anyStep {} s → s.Exact registryMonitor :=
  ⟨fun _ h => exact_of_reaches h, fun _ h => exact_of_reaches h⟩

/-- A file event for the empty path. -/
def emptyPath : Event fileEvent where
  header := List.replicate 36 0 ++ [2, 0, 0, 0]
  data := [0, 0]
  length_header := rfl
  length_data := by decide
  size_lt := by decide

/-- Another is appended while the first is being copied, and does not fit behind it. -/
def fetchOne : List (DriverStep fileEvent) :=
  [.append emptyPath, .getEvents (List.replicate 82 0), .handler, .handler, .append emptyPath, .handler, .handler,
    .handler, .handler]

/-- One of two events is fetched, and the other one is put back. -/
theorem events_delivered_one : ∃ s, run (step fileMonitor) {} fetchOne = some s ∧ s.Exact fileMonitor ∧
    s.replies.flatMap Reply.events = [emptyPath] ∧ s.queue = [emptyPath] := by
  obtain ⟨s, hrun, hs⟩ : ∃ s, run (step fileMonitor) {} fetchOne = some s ∧
    s.replies.flatMap Reply.events = [emptyPath] ∧ s.queue = [emptyPath] := ⟨_, rfl, rfl, rfl⟩
  exact ⟨s, hrun, events_delivered.1 s (Reaches.of_run (fun _ _ _ => trivial) hrun), hs⟩

end EventQueue

end CaptureHPC.Driver
