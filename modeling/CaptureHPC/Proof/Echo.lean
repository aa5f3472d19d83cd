import CaptureHPC.Proof.Handlers
import CaptureHPC.Proof.UrlCodec

/-!
# The echo of a URL

A URL goes to the client as `URLEncoder` writes it, is decoded and encoded again there, and
comes back in the finish message. `getUrl_echo`: the server finds the URL again.

A URL has no blank, since `java.net.URI` accepts none; of the other characters the two
codecs of the client lose none that is a single unit.
-/

namespace CaptureHPC

open Lib

namespace Cpp.Url

/-! ## Decoding what the server wrote -/

theorem ascii_units {c : Char} (h : c.toNat < 0x80) : unitsOf c = [UInt16.ofNat c.toNat] :=
  unitsOf_bmp (by omega)

/-- An escape of a byte in upper-case digits. -/
theorem wcstol_hexDigit : ∀ b < 256, wcstol (UInt16.ofNat (CaptureHPC.hexDigit (b / 16)).toNat)
    (UInt16.ofNat (CaptureHPC.hexDigit (b % 16)).toNat) = b := by
  decide +kernel

theorem hexDigit_lt : ∀ n < 16, (CaptureHPC.hexDigit n).toNat < 0x80 := by decide

/-- A byte that the server leaves as it is. -/
theorem unreserved_unit : ∀ b < 256, isUnreserved b = true →
    b ≤ 0x7F ∧ (Char.ofNat b).toNat = b ∧ UInt16.ofNat b ≠ 0x25 := by
  decide +kernel

/-- One byte of the server's encoding. -/
theorem decodeFrom_encodeByte {b : ℕ} (hb : b < 256) (hspace : b ≠ 0x20) (d : Decoder) (rest : WString) :
    decodeFrom d (units (encodeByte b) ++ rest) = decodeFrom (d.byte b) rest := by
  unfold encodeByte CaptureHPC.escape
  rw [if_neg hspace]
  split_ifs with h
  · obtain ⟨hle, hnat, hne⟩ := unreserved_unit b hb h
    rw [units_cons, units_nil, List.append_nil, ascii_units (by omega), hnat, List.singleton_append,
      decodeFrom_push hne, Decoder.byte, if_pos hle]
  · have hhi := hexDigit_lt (b / 16) (by omega)
    have hlo := hexDigit_lt (b % 16) (by omega)
    rw [units_cons, units_cons, units_cons, units_nil, List.append_nil, ascii_units hhi, ascii_units hlo]
    show decodeFrom d (0x25 :: _ :: _ :: rest) = _
    rw [decodeFrom_escape, wcstol_hexDigit b hb]

/-- The bytes of the server's encoding. -/
theorem decodeFrom_encodeBytes {bs : List ℕ} (hbs : ∀ b ∈ bs, b < 256 ∧ b ≠ 0x20) (d : Decoder) (rest : WString) :
    decodeFrom d (units (bs.flatMap encodeByte) ++ rest) = decodeFrom (bs.foldl Decoder.byte d) rest := by
  induction bs generalizing d with
  | nil => rfl
  | cons b bs ih =>
    obtain ⟨hb, hspace⟩ := hbs b List.mem_cons_self
    rw [List.flatMap_cons, units_append, List.append_assoc, decodeFrom_encodeByte hb hspace,
      ih (fun x hx => hbs x (List.mem_cons_of_mem _ hx)), List.foldl_cons]

/-- The bytes of a character make its unit. -/
theorem foldl_utf8Encode {c : Char} (hc : c.toNat < 0x10000) (d : Decoder) :
    ((utf8Encode c).foldl Decoder.byte d).decoded = d.decoded ++ [UInt16.ofNat c.toNat] := by
  have hbytes : utf8Encode c = unitBytes c.toNat := by
    unfold utf8Encode unitBytes
    simp only [if_pos hc]
  rw [hbytes, foldl_unitBytes hc]

/-- A blank is the only character whose bytes contain that of a blank. -/
theorem utf8Encode_ne_space {c : Char} (h : c ≠ ' ') : ∀ b ∈ utf8Encode c, b < 256 ∧ b ≠ 0x20 := by
  intro b hb
  refine ⟨utf8Encode_lt c b hb, ?_⟩
  have hn : c.toNat ≠ 0x20 := by
    intro hn
    apply h
    rw [← Char.ofNat_toNat c, hn]
  unfold utf8Encode at hb
  simp only at hb
  split_ifs at hb <;> simp at hb <;> omega

/-- **The client reads the URL.** -/
theorem decode_urlEncode {cs : List Char} (hcs : ∀ c ∈ cs, c.toNat < 0x10000 ∧ c ≠ ' ') (d : Decoder) :
    (decodeFrom d (units ((cs.flatMap utf8Encode).flatMap encodeByte))).decoded = d.decoded ++ units cs := by
  induction cs generalizing d with
  | nil => exact (List.append_nil _).symm
  | cons c cs ih =>
    obtain ⟨hc, hspace⟩ := hcs c List.mem_cons_self
    rw [List.flatMap_cons, List.flatMap_append, units_append, decodeFrom_encodeBytes (utf8Encode_ne_space hspace),
      ih (fun x hx => hcs x (List.mem_cons_of_mem _ hx)), foldl_utf8Encode hc, units_cons, unitsOf_bmp hc,
      List.append_assoc]

/-! ## Decoding what the client wrote -/

/-- The text of `hexenc`. -/
def escape (b : ℕ) : List Char := ['%', hexDigit (b / 16), hexDigit (b % 16)]

theorem escapes_escape : Escapes escape := by
  have hread : ∀ b < 256, escapedByte (hexDigit (b / 16)) (hexDigit (b % 16)) = some b := by decide +kernel
  exact fun b hb => ⟨_, _, rfl, hread b hb⟩

/-- What a character is encoded to. -/
def encodeText (c : Char) : List Char :=
  if isSafe c.toNat then [c] else if c = ' ' then ['+'] else (utf8Encode c).flatMap escape

theorem encodeChar_unit {c : Char} (hc : c.toNat < 0x10000) :
    encodeChar (UInt16.ofNat c.toNat) = units (encodeText c) := by
  have hspace : c.toNat = 0x20 ↔ c = ' ' := by
    constructor
    · intro hn
      rw [← Char.ofNat_toNat c, hn]
    · rintro rfl
      rfl
  rw [encodeChar_eq, toNat_ofNat hc]
  unfold encodeText
  simp only [hspace]
  split_ifs with h1 h2
  · rw [units_cons, units_nil, List.append_nil, unitsOf_bmp hc]
  · rfl
  · have hbytes : utf8Encode c = unitBytes c.toNat := by
      unfold utf8Encode unitBytes
      simp only [if_pos hc]
    rw [hbytes, units, List.flatMap_assoc]
    rfl

/-- What decoding needs of a safe unit. -/
theorem safe_char : ∀ n < 0x80, isSafe n = true → Char.ofNat n ≠ '+' ∧ Char.ofNat n ≠ '%' := by
  decide +kernel

theorem isSafe_lt {n : ℕ} (h : isSafe n = true) : n < 0x80 := by
  unfold isSafe at h
  simp at h
  omega

theorem encodeText_cases (c : Char) :
    encodeText c = (utf8Encode c).flatMap escape ∨ encodeText c = [c] ∧ c ≠ '%' ∧ c ≠ '+' ∨
      encodeText c = ['+'] ∧ c = ' ' := by
  unfold encodeText
  split_ifs with hsafe hspace
  · obtain ⟨hplus, hpercent⟩ := safe_char c.toNat (isSafe_lt hsafe) hsafe
    rw [Char.ofNat_toNat] at hplus hpercent
    exact .inr (.inl ⟨rfl, hpercent, hplus⟩)
  · exact .inr (.inr ⟨rfl, hspace⟩)
  · exact .inl rfl

/-- **The server reads the URL.** -/
theorem urlDecode_encode {cs : List Char} (hcs : ∀ c ∈ cs, c.toNat < 0x10000) :
    urlDecode (String.ofList (ofUnits (encode (units cs)))) = some (String.ofList cs) := by
  have henc : encode (units cs) = units (cs.flatMap encodeText) := by
    induction cs with
    | nil => rfl
    | cons c cs ih =>
      have hc := hcs c List.mem_cons_self
      rw [List.flatMap_cons, units_append, units_cons, unitsOf_bmp hc, ← encodeChar_unit hc,
        ← ih fun x hx => hcs x (List.mem_cons_of_mem _ hx)]
      rfl
  have hdecode := decodeRuns_texts escapes_escape encodeText_cases cs []
  rw [List.flatMap_nil, List.nil_append] at hdecode
  rw [henc, ofUnits_units, urlDecode, String.toList_ofList, hdecode, Option.map_some]

end Cpp.Url

/-! ## The lookup -/

/-- The item's text in the finish message for a text in the visit-event. -/
def echo (text : String) : String :=
  String.ofList (ofUnits (Cpp.Url.encode (Cpp.Url.decode (units text.toList))))

theorem urlDecode_echo {url : String} (h : ∀ c ∈ url.toList, c.toNat < 0x10000 ∧ c ≠ ' ') :
    urlDecode (echo (urlEncode url)) = some url := by
  have hdec : Cpp.Url.decode (units (urlEncode url).toList) = units url.toList := by
    rw [urlEncode, String.toList_ofList]
    exact Cpp.Url.decode_urlEncode h {}
  rw [echo, hdec, Cpp.Url.urlDecode_encode fun c hc => (h c hc).1, String.ofList_toList]

/-- **The URL of an item comes back.** In a group whose URLs are distinct, ignoring case,
after encoding, `getUrl` finds exactly the URL that was sent. -/
theorem getUrl_echo {s : UrlGroupsController} {g u : ℕ}
    (hdistinct : (s.group g).urlList.Pairwise fun v v' =>
      equalsIgnoreCase (s.urls.url v).escapedUrl (s.urls.url v').escapedUrl = false)
    (hurl : ∀ c ∈ (s.urls.url u).url.toList, c.toNat < 0x10000 ∧ c ≠ ' ') (hu : u ∈ (s.group g).urlList) :
    (UrlGroup.getUrl g (some (echo (s.urls.url u).escapedUrl))).run s = .ok u s := by
  have hdec : urlDecode (echo (s.urls.url u).escapedUrl) = some (s.urls.url u).url := urlDecode_echo hurl
  apply getUrl_run
  unfold named
  rw [Option.bind_some, hdec, Option.bind_some]
  -- of the URLs before `u` none has its encoding
  obtain ⟨pre, post, hsplit⟩ := List.append_of_mem hu
  rw [hsplit] at hdistinct ⊢
  rw [List.find?_append, List.find?_eq_none.2, Option.none_or, List.find?_cons_of_pos]
  · exact beq_self_eq_true _
  · intro v hv
    have hne := (List.pairwise_append.1 hdistinct).2.2 v hv u List.mem_cons_self
    rw [Bool.not_eq_true]
    exact hne

/-- A group of two URLs, one of them with a letter of two and a sign of three bytes. -/
def echoing : UrlGroupsController :=
  (World.reached (groupsOf 2) .utc [.addUrl "http://a.b/" "ie" 5 1,
    .addUrl "http://a.b/ó%20€?q='x'&r=1+1" "ie" 5 2, .connect 0, .retrieve 0 (fun _ => 0) true]).groups

theorem getUrl_echo_two : (echoing.urls.url 1).url = "http://a.b/ó%20€?q='x'&r=1+1" ∧
    (UrlGroup.getUrl 0 (some (echo (echoing.urls.url 1).escapedUrl))).run echoing = .ok 1 echoing :=
  have hurl : ((echoing.urls.url 1).url.toList.all fun c => decide (c.toNat < 0x10000 ∧ c ≠ ' ')) = true := by
    decide +kernel
  ⟨by decide +kernel, getUrl_echo (by decide +kernel)
    (fun c hc => of_decide_eq_true (List.all_eq_true.1 hurl c hc)) (by decide +kernel)⟩

end CaptureHPC
