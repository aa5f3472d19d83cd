import CaptureHPC.Proof.EventStream
import CaptureHPC.Spec.DriverCallbacks

/-!
# Progress of the drivers' event queues

An event that does not fit the buffer is put back at the head of its queue. While every event fits, a
request for a queue that is not empty delivers an event (`step_change`), and an event waits for at most
as many requests as there are events before it (`progress_of_reaches`). An event that does not fit is never
delivered, nor is one behind it (`oversized_blocks`).
-/

namespace CaptureHPC.Driver

open Lib

namespace EventQueue

variable {L : Layout UInt8} {s s' : EventQueue L} {r : Request L} {e : Event L}

/-- How many events the replies have delivered. -/
def done (s : EventQueue L) : ℕ := (s.replies.flatMap Reply.events).length

/-- Requests come with the monitor's buffer, and the events fit into it. -/
def fitting (_ : EventQueue L) : DriverStep L → Prop
  | .append e => e.size ≤ eventsBufferSize
  | .getEvents buffer => buffer.length = eventsBufferSize
  | .handler => True

/-- What such steps keep. -/
structure Fitting (s : EventQueue L) : Prop extends Ordered s where
  sizes : ∀ e ∈ s.accepted, e.size ≤ eventsBufferSize
  space : ∀ r, s.request = some r → r.bufferSpace = eventsBufferSize

theorem Fitting.start : Fitting ({} : EventQueue L) where
  toOrdered := Ordered.start
  sizes _ h := nomatch h
  space _ h := nomatch h

/-- What a step does to the replies: none, while the request goes on, or one for the request. A reply
without events means that there were none. -/
inductive Change (s s' : EventQueue L) : Prop
  | goesOn (replies : s'.replies = s.replies) (accepted : s.accepted <+: s'.accepted)
      (request : ∀ r, s.request = some r → ∃ r', s'.request = some r' ∧ r.events.length ≤ r'.events.length)
  | replied (r : Request L) (request : s.request = some r)
      (replies : s'.replies = s.replies ++ [⟨r.outputBuffer, r.bufferSpaceUsed, r.events⟩])
      (accepted : s'.accepted = s.accepted) (empty : r.events = [] → s.done = s.accepted.length)

theorem mem_accepted (h : s.Ordered) (hr : s.request = some r) (hp : r.point = .holding e) : e ∈ s.accepted := by
  have ho := h.order
  rw [← ho, inHand, hr, Option.map_some, Option.getD_some, held, hp]
  simp

/-- A handler that returns with no events has found the queue empty. -/
theorem empty_of_handler (h : s.Fitting) (hL : L.headerSize ≤ eventsBufferSize) (hr : s.request = some r)
    (hstep : s.handler = some s') (hdone : s'.request = none) (hempty : r.events = []) :
    s.done = s.accepted.length := by
  have hused : r.bufferSpaceUsed = 0 := by
    have hholds := (h.request r hr).holds.1
    rw [hempty] at hholds
    exact hholds
  have hspace := h.space r hr
  rcases stops_of_handler hstep hr hdone with ⟨hp, hq | hheader⟩ | ⟨e, hp, -, hsize⟩
  · have ho := h.order
    rw [delivered, inHand, hr, hq, Option.map_some, Option.map_some, Option.getD_some, Option.getD_some, held, hp,
      hempty] at ho
    simp only [List.append_nil] at ho
    rw [done, ho]
  · omega
  -- the buffer is still empty, so the event fits
  · have hfits := h.sizes e (mem_accepted h.toOrdered hr hp)
    omega

/-- **One step.** -/
theorem step_change {m : Monitor} {s s' : EventQueue m.layout} {a : DriverStep m.layout} (h : s.Fitting)
    (hL : m.layout.headerSize ≤ eventsBufferSize) (ha : s.fitting a) (hstep : s.step m a = some s') :
    s'.Fitting ∧ Change s s' := by
  have hord := h.toOrdered.step hstep
  cases a with
  | append e =>
    obtain rfl := Option.some.inj hstep
    refine ⟨⟨hord, fun e' he' => ?_, h.space⟩,
      .goesOn rfl (List.prefix_append _ _) fun r hr => ⟨r, hr, le_rfl⟩⟩
    rcases List.mem_append.1 he' with he' | he'
    · exact h.sizes e' he'
    · exact List.mem_singleton.1 he' ▸ ha
  | getEvents buffer =>
    have hlen : buffer.length = eventsBufferSize := ha
    simp only [EventQueue.step, EventQueue.getEvents] at hstep
    split_ifs at hstep with hguard hsmall
    · rw [Bool.and_eq_true, decide_eq_true_eq] at hsmall
      omega
    · rw [Bool.and_eq_true, Option.isNone_iff_eq_none] at hguard
      obtain rfl := Option.some.inj hstep
      refine ⟨⟨hord, h.sizes, fun r hr => ?_⟩, .goesOn rfl List.prefix_rfl fun r hr => ?_⟩
      · obtain rfl := Option.some.inj hr
        exact hlen
      · exact absurd (hguard.1.symm.trans hr) (by simp)
  | handler =>
    have hhandler : s.handler = some s' := hstep
    unfold handler at hhandler
    split at hhandler
    · exact absurd hhandler (by simp)
    · rename_i r hr
      -- a request that goes on keeps its buffer and the events it has
      have hgo : ∀ {t : EventQueue m.layout} {r' : Request m.layout}, t.Ordered → t.replies = s.replies →
          t.accepted = s.accepted → t.request = some r' → r'.bufferSpace = r.bufferSpace →
          r.events.length ≤ r'.events.length → t.Fitting ∧ Change s t := by
        intro t r' hordt hreplies haccepted hrt hspace hevents
        refine ⟨⟨hordt, haccepted ▸ h.sizes, fun r2 hr2 => ?_⟩,
          .goesOn hreplies (haccepted ▸ List.prefix_rfl) fun r2 hr2 => ⟨r', hrt, ?_⟩⟩
        · rw [← Option.some.inj (hrt.symm.trans hr2), hspace, h.space r hr]
        · rwa [← Option.some.inj (hr.symm.trans hr2)]
      have hreply : ∀ queue, ({ s with queue := queue } : EventQueue m.layout).reply r = s' →
          s'.Fitting ∧ Change s s' := by
        rintro queue rfl
        exact ⟨⟨hord, h.sizes, fun _ hr' => by cases hr'⟩,
          .replied r hr rfl rfl (empty_of_handler h hL hr hstep rfl)⟩
      split at hhandler
      · split_ifs at hhandler with hcond
        · obtain rfl := Option.some.inj hhandler
          exact hgo hord rfl rfl rfl rfl le_rfl
        · exact hreply s.queue (Option.some.inj hhandler)
      · split at hhandler
        · obtain rfl := Option.some.inj hhandler
          exact hgo hord rfl rfl rfl rfl le_rfl
        · exact absurd hhandler (by simp)
      · rename_i e hp
        have hplace := Option.some.inj hhandler
        unfold place at hplace
        dsimp only at hplace
        split_ifs at hplace with hfits
        · subst hplace
          exact hgo hord rfl rfl rfl rfl (by rw [List.length_append]; exact Nat.le_add_right ..)
        · exact hreply (e :: s.queue) hplace

theorem fitting_of_reaches {m : Monitor} {s : EventQueue m.layout} (hL : m.layout.headerSize ≤ eventsBufferSize)
    (h : Reaches (step m) fitting {} s) : s.Fitting :=
  h.invariant Fitting.start fun _ _ _ hs ha hstep => (step_change hs hL ha hstep).1

/-! ## From a state on -/

section Run

variable {m : Monitor} {s t : EventQueue m.layout}

/-- The events that are accepted and not delivered, in order. -/
def waiting (s : EventQueue L) : List (Event L) := s.inHand ++ s.queue

/-- One while a request is being handled. -/
def pending (s : EventQueue L) : ℕ := if s.request.isSome then 1 else 0

/-- What holds from a state `s` on. The first request may already have passed the events in front;
every other one delivers an event, as long as there are some of `s`. -/
structure Since (s t : EventQueue L) : Prop extends Fitting t where
  grows : s.accepted <+: t.accepted
  counts : s.replies.length ≤ t.replies.length
  progress : s.accepted.length ≤ t.done ∨
    t.replies.length + s.delivered.length ≤ t.done + s.replies.length + s.pending ∨
    t.replies.length = s.replies.length ∧ s.pending = 1 ∧
      ∃ r, t.request = some r ∧ s.delivered.length ≤ t.done + r.events.length

theorem Since.start {s : EventQueue L} (h : s.Fitting) : Since s s where
  toFitting := h
  grows := List.prefix_rfl
  counts := le_rfl
  progress := by
    cases hr : s.request with
    | none =>
      refine .inr (.inl ?_)
      rw [delivered, hr, pending, hr]
      simp [done]
      omega
    | some r =>
      refine .inr (.inr ⟨rfl, by rw [pending, hr]; rfl, r, rfl, ?_⟩)
      rw [delivered, hr, List.length_append]
      rfl

theorem Since.step (h : Since s t) (hL : m.layout.headerSize ≤ eventsBufferSize) {a : DriverStep m.layout}
    {t' : EventQueue m.layout} (ha : t.fitting a) (hstep : t.step m a = some t') : Since s t' := by
  obtain ⟨hfit, hchange⟩ := step_change h.toFitting hL ha hstep
  cases hchange with
  | goesOn replies accepted request =>
    have hdone : t'.done = t.done := by rw [done, done, replies]
    refine ⟨hfit, h.grows.trans accepted, replies ▸ h.counts, ?_⟩
    rw [replies, hdone]
    refine h.progress.imp_right (Or.imp_right ?_)
    rintro ⟨hlen, hpending, r, hr, hle⟩
    obtain ⟨r', hr', hevents⟩ := request r hr
    exact ⟨hlen, hpending, r', hr', by omega⟩
  | replied r request replies accepted empty =>
    have hdone : t'.done = t.done + r.events.length := by
      rw [done, done, replies, List.flatMap_append, List.flatMap_singleton, List.length_append]
    have hlen : t'.replies.length = t.replies.length + 1 := by rw [replies, List.length_append, List.length_singleton]
    have hprefix := h.grows.length_le
    refine ⟨hfit, accepted ▸ h.grows, by have := h.counts; omega, ?_⟩
    -- a reply without events says that all is delivered, any other one delivers an event
    rcases Nat.eq_zero_or_pos r.events.length with hzero | hpos
    · have := empty (List.length_eq_zero_iff.1 hzero)
      exact .inl (by omega)
    · rcases h.progress with hall | hsome | ⟨hfirst, hpending, r', hr', hle⟩
      · exact .inl (by omega)
      · exact .inr (.inl (by omega))
      · obtain rfl := Option.some.inj (request.symm.trans hr')
        exact .inr (.inl (by omega))

theorem since_of_reaches (hs : s.Fitting) (hL : m.layout.headerSize ≤ eventsBufferSize)
    (h : Reaches (EventQueue.step m) fitting s t) : Since s t :=
  h.invariant (Since.start hs) fun _ _ _ ht ha hstep => ht.step hL ha hstep

/-- No reply since `s`, or a first one with events. -/
def FirstReply (s t : EventQueue L) : Prop :=
  t.replies = s.replies ∨ ∃ reply, t.replies[s.replies.length]? = some reply ∧ reply.events ≠ []

theorem firstReply_of_reaches (hs : s.Fitting) (hL : m.layout.headerSize ≤ eventsBufferSize)
    (hqueue : s.done < s.accepted.length) (h : Reaches (EventQueue.step m) fitting s t) : FirstReply s t := by
  refine (h.invariant (P := fun t => t.Fitting ∧ s.accepted <+: t.accepted ∧ FirstReply s t)
    ⟨hs, List.prefix_rfl, .inl rfl⟩ ?_).2.2
  rintro t a t' ⟨hfit, hgrows, hfirst⟩ ha hstep
  obtain ⟨hfit', hchange⟩ := step_change hfit hL ha hstep
  cases hchange with
  | goesOn replies accepted request => exact ⟨hfit', hgrows.trans accepted, by rwa [FirstReply, replies]⟩
  | replied r request replies accepted empty =>
    refine ⟨hfit', accepted ▸ hgrows, .inr ?_⟩
    rcases hfirst with hsame | ⟨reply, hreply, hne⟩
    · refine ⟨_, by rw [replies, hsame, List.getElem?_concat_length], fun hnil => ?_⟩
      have hdone := empty hnil
      have hle := hgrows.length_le
      rw [done, hsame] at hdone
      rw [done] at hqueue
      omega
    · have hlt := (List.getElem?_eq_some_iff.1 hreply).1
      exact ⟨reply, by rw [replies, List.getElem?_append_left hlt, hreply], hne⟩

end Run

/-- With the monitor's buffer a request begins. -/
theorem getEvents_begins {m : Monitor} {s : EventQueue m.layout} {buffer : List UInt8}
    (hL : m.layout.headerSize ≤ eventsBufferSize) (hnone : s.request = none) (hbuffer : buffer.length = eventsBufferSize) :
    s.step m (.getEvents buffer) = some { s with request := some ⟨buffer.length, 0, buffer, .looking, []⟩ } := by
  have hlt : buffer.length < uintSize := by
    rw [hbuffer]
    decide
  have hsmall : ¬buffer.length < m.layout.headerSize := by omega
  simp [EventQueue.step, EventQueue.getEvents, hnone, hlt, hsmall]

theorem fits_answers {m : Monitor} {s : EventQueue m.layout} (h : s.Fitting) (hrequest : s.request ≠ none) :
    Answers m (3 * eventsBufferSize + 2) s := by
  obtain ⟨r, hr⟩ := Option.ne_none_iff_exists'.1 hrequest
  refine (h.answers hr).mono ?_
  rw [← h.space r hr]
  exact stepsLeft_le r

/-- No event blocks those behind it, in the runs that go on from a state by steps that meet `ok`. -/
structure Progress (m : Monitor) (ok : EventQueue m.layout → DriverStep m.layout → Prop)
    (s : EventQueue m.layout) : Prop where
  /-- A request can be made where none is being handled; it is answered, and for a queue that is not empty it delivers
  an event. -/
  delivers : s.request = none → ∀ buffer, buffer.length = eventsBufferSize →
    ∃ s', s.step m (.getEvents buffer) = some s' ∧ s'.replies = s.replies ∧
      Answers m (3 * eventsBufferSize + 2) s' ∧
      (s.queue ≠ [] → ∀ t reply, Reaches (step m) ok s' t → t.replies[s.replies.length]? = some reply →
        reply.events ≠ [])
  /-- One that is being handled is answered. -/
  answers : s.request ≠ none → Answers m (3 * eventsBufferSize + 2) s
  /-- An event with `i` events before it is delivered by the next `i + 1` requests. -/
  waits : ∀ i e t, s.waiting[i]? = some e → Reaches (step m) ok s t →
    s.replies.length + s.pending + i < t.replies.length →
    (t.replies.flatMap Reply.events)[s.delivered.length + i]? = some e

/-- **While every event fits, none blocks those behind it.** -/
theorem progress_of_reaches {m : Monitor} {ok : EventQueue m.layout → DriverStep m.layout → Prop}
    {s : EventQueue m.layout} (hL : m.layout.headerSize ≤ eventsBufferSize) (hok : ∀ s a, ok s a → fitting s a)
    (h : Reaches (step m) ok {} s) : Progress m ok s where
  delivers hnone buffer hbuffer := by
    have hs := fitting_of_reaches hL (h.weaken hok)
    have hbegin := getEvents_begins hL hnone hbuffer
    have hfitting : s.fitting (.getEvents buffer) := hbuffer
    have hs' := (step_change hs hL hfitting hbegin).1
    refine ⟨_, hbegin, rfl, fits_answers hs' (by simp), fun hqueue t reply hrun hreply => ?_⟩
    have hlt : s.done < s.accepted.length := by
      have hpos := List.length_pos_iff.2 hqueue
      rw [← hs.order, delivered, inHand, hnone, List.length_append, List.length_append, List.length_append, done]
      omega
    have hrun' := (Reaches.one hfitting hbegin).trans (hrun.weaken hok)
    rcases firstReply_of_reaches hs hL hlt hrun' with hsame | ⟨reply', hreply', hne⟩
    · rw [hsame, List.getElem?_eq_none (Nat.le_refl _)] at hreply
      cases hreply
    · rwa [← Option.some.inj (hreply'.symm.trans hreply)]
  answers hrequest := fits_answers (fitting_of_reaches hL (h.weaken hok)) hrequest
  waits i e t he hrun hcount := by
    have hs := fitting_of_reaches hL (h.weaken hok)
    have hsince := since_of_reaches hs hL (hrun.weaken hok)
    have hacc : s.accepted[s.delivered.length + i]? = some e := by
      rw [← hs.order, List.append_assoc, List.getElem?_append_right (Nat.le_add_right ..), Nat.add_sub_cancel_left]
      exact he
    have hlt : s.delivered.length + i < s.accepted.length := (List.getElem?_eq_some_iff.1 hacc).1
    have hdone : s.delivered.length + i < t.done := by
      rcases hsince.progress with hall | hsome | ⟨hsame, -⟩
      · exact Nat.lt_of_lt_of_le hlt hall
      · omega
      · omega
    have hgrown : t.accepted[s.delivered.length + i]? = some e := by
      obtain ⟨more, hmore⟩ := hsince.grows
      rw [← hmore, List.getElem?_append_left hlt, hacc]
    rw [← hsince.order, delivered, List.append_assoc, List.append_assoc, List.getElem?_append_left hdone] at hgrown
    exact hgrown

/-! ## An event that does not fit -/

/-- Any event may be queued; requests come with the monitor's buffer. -/
def anyEvent (_ : EventQueue L) : DriverStep L → Prop
  | .getEvents buffer => buffer.length = eventsBufferSize
  | _ => True

/-- What holds then: what is delivered fits the buffer. -/
structure Bounded (s : EventQueue L) : Prop extends Ordered s where
  sizes : ∀ e ∈ s.delivered, e.size ≤ eventsBufferSize
  space : ∀ r, s.request = some r → r.bufferSpace = eventsBufferSize

theorem Bounded.start : Bounded ({} : EventQueue L) where
  toOrdered := Ordered.start
  sizes _ h := nomatch h
  space _ h := nomatch h

/-- An answer delivers what the request has. -/
theorem delivered_reply (hr : s.request = some r) (queue : List (Event L)) :
    (({ s with queue := queue } : EventQueue L).reply r).delivered = s.delivered := by
  rw [delivered, delivered, hr]
  simp [EventQueue.reply]

theorem Bounded.step {m : Monitor} {s s' : EventQueue m.layout} {a : DriverStep m.layout} (h : s.Bounded)
    (ha : s.anyEvent a) (hstep : s.step m a = some s') : s'.Bounded := by
  have hord := h.toOrdered.step hstep
  cases a with
  | append e =>
    obtain rfl := Option.some.inj hstep
    exact ⟨hord, h.sizes, h.space⟩
  | getEvents buffer =>
    have hlen : buffer.length = eventsBufferSize := ha
    simp only [EventQueue.step, EventQueue.getEvents] at hstep
    split_ifs at hstep with hguard
    all_goals
      rw [Bool.and_eq_true, Option.isNone_iff_eq_none] at hguard
      have hsizes := h.sizes
      rw [delivered, hguard.1] at hsizes
      obtain rfl := Option.some.inj hstep
    · refine ⟨hord, fun e he => hsizes e ?_, fun r hr => by cases hr⟩
      simpa [delivered, EventQueue.reply] using he
    · refine ⟨hord, fun e he => hsizes e he, fun r hr => ?_⟩
      obtain rfl := Option.some.inj hr
      exact hlen
  | handler =>
    have hhandler : s.handler = some s' := hstep
    unfold handler at hhandler
    split at hhandler
    · cases hhandler
    · rename_i r hr
      have hspace := h.space r hr
      have hsizes := h.sizes
      rw [delivered, hr] at hsizes
      have hreply : ∀ queue, ({ s with queue := queue } : EventQueue m.layout).reply r = s' → s'.Bounded := by
        rintro queue rfl
        refine ⟨hord, fun e he => h.sizes e ?_, fun r' hr' => by cases hr'⟩
        rwa [delivered_reply hr queue] at he
      split at hhandler
      · split_ifs at hhandler
        · obtain rfl := Option.some.inj hhandler
          refine ⟨hord, hsizes, fun r' hr' => ?_⟩
          obtain rfl := Option.some.inj hr'
          exact hspace
        · exact hreply s.queue (Option.some.inj hhandler)
      · split at hhandler
        · obtain rfl := Option.some.inj hhandler
          refine ⟨hord, hsizes, fun r' hr' => ?_⟩
          obtain rfl := Option.some.inj hr'
          exact hspace
        · cases hhandler
      · rename_i e hp
        have hplace := Option.some.inj hhandler
        unfold place at hplace
        rw [Nat.mod_eq_of_lt e.size_lt] at hplace
        dsimp only at hplace
        split_ifs at hplace with hfits
        · subst hplace
          refine ⟨hord, fun e' he' => ?_, fun r' hr' => ?_⟩
          · -- the event that is copied fits the space that is left
            have hcases : e' ∈ s.replies.flatMap Reply.events ++ r.events ∨ e' = e := by
              simpa [delivered, or_assoc] using he'
            rcases hcases with hold | rfl
            · exact hsizes e' hold
            · omega
          · obtain rfl := Option.some.inj hr'
            exact hspace
        · exact hreply (e :: s.queue) hplace

/-- **An event that does not fit is never delivered**, and none behind it is. -/
theorem oversized_blocks {m : Monitor} {s : EventQueue m.layout} {e : Event m.layout} {k : ℕ}
    (h : Reaches (step m) anyEvent {} s) (hk : s.accepted[k]? = some e) (he : eventsBufferSize < e.size) :
    s.delivered.length ≤ k := by
  have hs : s.Bounded := h.invariant Bounded.start fun _ _ _ hs ha hstep => hs.step ha hstep
  by_contra hlt
  rw [not_le] at hlt
  -- what is delivered is the beginning of what was accepted
  rw [← hs.order, List.append_assoc, List.getElem?_append_left hlt] at hk
  exact absurd (hs.sizes e (List.mem_of_getElem? hk)) (Nat.not_le.2 he)

/-- A request that finds such an event first delivers nothing. -/
theorem oversized_reply {m : Monitor} {s : EventQueue m.layout} {e : Event m.layout} {rest : List (Event m.layout)}
    {buffer : List UInt8} (hL : m.layout.headerSize ≤ buffer.length) (hlt : buffer.length < uintSize)
    (he : buffer.length < e.size) (hnone : s.request = none) (hqueue : s.queue = e :: rest) :
    ∃ s', s.step m (.getEvents buffer) = some s' ∧ run (EventQueue.step m) s' [.handler, .handler, .handler] =
      some (s.reply ⟨buffer.length, 0, buffer, .looking, []⟩) := by
  have hpos := m.layout.headerSize_pos
  refine ⟨{ s with request := some ⟨buffer.length, 0, buffer, .looking, []⟩ }, ?_, ?_⟩
  · have hsmall : ¬ buffer.length < m.layout.headerSize := Nat.not_lt.2 hL
    simp [EventQueue.step, EventQueue.getEvents, hnone, hlt, hsmall]
  · have hgo : 0 < buffer.length := Nat.lt_of_lt_of_le hpos hL
    simp [run, EventQueue.step, handler, goesOn, hqueue, hL, hgo, place, Nat.mod_eq_of_lt e.size_lt,
      Nat.not_le.2 he, EventQueue.reply]

/-! ## The two drivers -/

/-- Runs of the file driver: its callback queues the events. -/
def fileSteps (_ : EventQueue fileEvent) : DriverStep fileEvent → Prop
  | .append e => IsFileEvent e
  | .getEvents buffer => buffer.length = eventsBufferSize
  | .handler => True

/-- Runs of the registry driver. -/
def registrySteps (_ : EventQueue registryEvent) : DriverStep registryEvent → Prop
  | .append e => IsRegistryEvent e
  | .getEvents buffer => buffer.length = eventsBufferSize
  | .handler => True

/-- Runs of the registry driver in which path and value fit the monitor's buffer. -/
def fittingRegistrySteps (s : EventQueue registryEvent) (a : DriverStep registryEvent) : Prop :=
  registrySteps s a ∧ ∀ e, a = .append e → e.size ≤ eventsBufferSize

/-- Every path fits. -/
theorem fileSteps_fitting (s : EventQueue fileEvent) (a : DriverStep fileEvent) (h : fileSteps s a) :
    fitting s a := by
  cases a with
  | append e =>
    obtain ⟨fields, path, hfields, hpath, rfl⟩ := h
    show Record.size _ ≤ eventsBufferSize
    rw [fileEventOf_size]
    exact Nat.le_trans (Nat.add_le_add_left (Nat.add_le_add_right hpath 2) 40) (by decide)
  | getEvents buffer => exact h
  | handler => exact h

theorem fittingRegistrySteps_fitting (s : EventQueue registryEvent) (a : DriverStep registryEvent)
    (h : fittingRegistrySteps s a) : fitting s a := by
  cases a with
  | append e => exact h.2 e rfl
  | getEvents buffer => exact h.1
  | handler => trivial

theorem registrySteps_any (s : EventQueue registryEvent) (a : DriverStep registryEvent) (h : registrySteps s a) :
    anyEvent s a := by
  cases a with
  | append e => trivial
  | getEvents buffer => exact h
  | handler => trivial

/-- How much a registry event needs: its path and the data of its value. -/
theorem registryEvent_size (operation : RegistryOperation) {fields : List UInt8} (hfields : fields.length = 28)
    (hsize : 36 + ((pathBytes operation.registryPath).length + 2 + operation.registryData.length) < uintSize) :
    (registryEventOf fields (pathBytes operation.registryPath) operation.registryData hfields hsize).size =
      38 + 2 * operation.registryPath.length + operation.registryData.length := by
  rw [registryEventOf_size, length_pathBytes]
  omega

/-- **No event blocks those behind it**: file events never do; registry events do not while each of them fits the
buffer, and one that does not fit is never delivered, nor any behind it. -/
theorem none_blocked (s : EventQueue fileEvent) (t u : EventQueue registryEvent)
    (hs : Reaches (step fileMonitor) fileSteps {} s) (ht : Reaches (step registryMonitor) fittingRegistrySteps {} t)
    (hu : Reaches (step registryMonitor) registrySteps {} u) :
    Progress fileMonitor fileSteps s ∧ Progress registryMonitor fittingRegistrySteps t ∧
      ∀ k e, u.accepted[k]? = some e → eventsBufferSize < e.size → u.delivered.length ≤ k :=
  ⟨progress_of_reaches (by decide) fileSteps_fitting hs,
    progress_of_reaches (by decide) fittingRegistrySteps_fitting ht,
    fun _ _ hk he => oversized_blocks (hu.weaken registrySteps_any) hk he⟩

/-- A key. -/
def keyName : List UInt16 := "\\REGISTRY\\MACHINE\\SOFTWARE\\K".toList.map fun c => UInt16.ofNat c.toNat

/-- A registry value of one byte is set under it. -/
def smallOperation : RegistryOperation := .setValue keyName [0x56] [1]

def smallValue : Event registryEvent :=
  registryEventOf (List.replicate 28 0) (pathBytes smallOperation.registryPath) smallOperation.registryData rfl
    (by decide +kernel)

/-- One as large as the monitor's buffer. -/
def largeOperation : RegistryOperation := .setValue keyName [0x56] (List.replicate eventsBufferSize 0)

theorem largeOperation_lengths :
    largeOperation.registryPath.length = 30 ∧ largeOperation.registryData.length = eventsBufferSize := by
  constructor
  · show (valuePath keyName [0x56]).length = 30
    decide +kernel
  · show (if [0x56] = ([] : List UInt16) then [] else List.replicate eventsBufferSize 0).length = eventsBufferSize
    rw [if_neg (List.cons_ne_nil _ _), List.length_replicate]

def largeValue : Event registryEvent :=
  registryEventOf (List.replicate 28 0) (pathBytes largeOperation.registryPath) largeOperation.registryData rfl
    (by rw [length_pathBytes, largeOperation_lengths.1, largeOperation_lengths.2]; decide)

theorem largeValue_size : eventsBufferSize < largeValue.size := by
  rw [largeValue, registryEvent_size, largeOperation_lengths.1, largeOperation_lengths.2]
  decide

/-- The states in which they are queued. -/
def queued (e : Event registryEvent) : EventQueue registryEvent := { queue := [e], accepted := [e] }

theorem smallValue_queued : Reaches (step registryMonitor) fittingRegistrySteps {} (queued smallValue) := by
  have hok : fittingRegistrySteps {} (.append smallValue) := by
    refine ⟨⟨smallOperation, _, rfl, by decide +kernel, rfl⟩, fun e he => ?_⟩
    obtain rfl : smallValue = e := DriverStep.append.inj he
    rw [smallValue, registryEvent_size]
    decide +kernel
  exact Reaches.one hok rfl

theorem largeValue_queued : Reaches (step registryMonitor) registrySteps {} (queued largeValue) := by
  have hok : registrySteps {} (.append largeValue) :=
    ⟨largeOperation, _, rfl, by rw [length_pathBytes, largeOperation_lengths.1, largeOperation_lengths.2]; decide, rfl⟩
  exact Reaches.one hok rfl

/-- A value that fits, and one that does not. -/
theorem none_blocked_values :
    Progress fileMonitor fileSteps {} ∧ Progress registryMonitor fittingRegistrySteps (queued smallValue) ∧
      ∀ k e, (queued largeValue).accepted[k]? = some e → eventsBufferSize < e.size →
        (queued largeValue).delivered.length ≤ k :=
  none_blocked {} _ _ .start smallValue_queued largeValue_queued

/-- The large value is queued, and the request behind it delivers nothing. -/
theorem largeValue_blocks :
    Reaches (step registryMonitor) registrySteps {} (queued largeValue) ∧
      ¬Progress registryMonitor registrySteps (queued largeValue) := by
  refine ⟨largeValue_queued, fun h => ?_⟩
  have hbuffer : (List.replicate eventsBufferSize (0 : UInt8)).length = eventsBufferSize := List.length_replicate
  obtain ⟨s', hbegin, -, -, hdelivers⟩ := h.delivers rfl _ hbuffer
  obtain ⟨s'', hbegin', hrun⟩ := @oversized_reply registryMonitor (queued largeValue) largeValue []
    (List.replicate eventsBufferSize 0) (by rw [hbuffer]; decide) (by rw [hbuffer]; decide)
    (by rw [hbuffer]; exact largeValue_size) rfl rfl
  obtain rfl := Option.some.inj (hbegin'.symm.trans hbegin)
  have hsteps : ∀ a ∈ [.handler, .handler, .handler], ∀ t : EventQueue registryEvent, registrySteps t a := by
    intro a ha t
    simp only [List.mem_cons, List.not_mem_nil, or_false, or_self] at ha
    exact ha ▸ trivial
  exact hdelivers (List.cons_ne_nil _ _) _ _ (Reaches.of_run hsteps hrun) rfl rfl

end EventQueue

end CaptureHPC.Driver
