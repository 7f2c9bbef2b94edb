import CrdtEditor.Foundations.Run
import CrdtEditor.Wire.Message

/-!
# Wire/Framing — messages in a stream of bytes

`network/framing.cpp`, and the loop of `ClientConnection::read_header` / `read_body` and of
`NetworkClient::start_read`: four bytes with the length of what follows, most significant first, then
the bytes of the message.  The two loops are one here, over what they call on their endpoint.

Whatever bytes arrive, in whatever pieces, what the loop has consumed is the framing of what it has
delivered, up to a header: `Accounts`.  So what is delivered of a stream of framed messages are the first
of them, and all of them unless the connection ends (`recovers`); and no body is longer than
`MAX_MESSAGE_SIZE`.
-/

namespace CrdtEditor

namespace Framing

/-! ## The header -/

/-- A header: four bytes, each a signed `char`. -/
abbrev Header := Vector Int8 4

def encodeLength (length : UInt32) : Header :=
  #v[((length >>> 24) &&& 0xFF).toUInt8.toInt8, ((length >>> 16) &&& 0xFF).toUInt8.toInt8,
    ((length >>> 8) &&& 0xFF).toUInt8.toInt8, (length &&& 0xFF).toUInt8.toInt8]

def decodeLength (header : Header) : UInt32 :=
  (header[0].toUInt8.toUInt32 <<< 24) ||| (header[1].toUInt8.toUInt32 <<< 16) |||
    (header[2].toUInt8.toUInt32 <<< 8) ||| header[3].toUInt8.toUInt32

/-- The bytes of a header are the digits of the length to the base 256. -/
theorem toNat_decodeLength (h : Header) :
    (decodeLength h).toNat = 2 ^ 24 * h[0].toUInt8.toNat + (2 ^ 16 * h[1].toUInt8.toNat +
      (2 ^ 8 * h[2].toUInt8.toNat + h[3].toUInt8.toNat)) := by
  have h0 : h[0].toUInt8.toNat < 2 ^ 8 := UInt8.toNat_lt _
  have h1 : h[1].toUInt8.toNat < 2 ^ 8 := UInt8.toNat_lt _
  have h2 : h[2].toUInt8.toNat < 2 ^ 8 := UInt8.toNat_lt _
  have h3 : h[3].toUInt8.toNat < 2 ^ 8 := UInt8.toNat_lt _
  -- the digits do not overlap, so `|||` adds them
  have h23 : 2 ^ 8 * h[2].toUInt8.toNat + h[3].toUInt8.toNat < 2 ^ 16 := by omega
  have h123 : 2 ^ 16 * h[1].toUInt8.toNat + (2 ^ 8 * h[2].toUInt8.toNat + h[3].toUInt8.toNat)
      < 2 ^ 24 := by omega
  rw [Nat.two_pow_add_eq_or_of_lt h123, Nat.two_pow_add_eq_or_of_lt h23,
    Nat.two_pow_add_eq_or_of_lt h3]
  simp only [decodeLength, UInt32.toNat_or, UInt32.toNat_shiftLeft, UInt8.toNat_toUInt32,
    Nat.shiftLeft_eq, Nat.or_assoc, Nat.mul_comm _ (2 ^ _)]
  norm_num only [UInt32.toNat_ofNat]
  rw [Nat.mod_eq_of_lt (by omega), Nat.mod_eq_of_lt (by omega), Nat.mod_eq_of_lt (by omega)]

theorem toNat_encodeLength (n : UInt32) (i : Fin 4) :
    (encodeLength n)[i].toUInt8.toNat = n.toNat / 2 ^ (8 * (3 - i.val)) % 2 ^ 8 := by
  have hmask (k : ℕ) : k &&& (Int8.toUInt8 255).toNat = k % 2 ^ 8 :=
    Nat.and_two_pow_sub_one_eq_mod k 8
  fin_cases i <;> simp [encodeLength, Nat.shiftRight_eq_div_pow, hmask]

theorem decodeLength_encodeLength (n : UInt32) : decodeLength (encodeLength n) = n := by
  have hn := n.toNat_lt
  have h0 := toNat_encodeLength n 0
  have h1 := toNat_encodeLength n 1
  have h2 := toNat_encodeLength n 2
  have h3 := toNat_encodeLength n 3
  apply UInt32.toNat_inj.mp
  rw [toNat_decodeLength]
  simp only [Fin.getElem_fin] at h0 h1 h2 h3
  norm_num at *
  omega

theorem encodeLength_decodeLength (h : Header) : encodeLength (decodeLength h) = h := by
  have hdigits := toNat_decodeLength h
  have h0 : h[0].toUInt8.toNat < 2 ^ 8 := UInt8.toNat_lt _
  have h1 : h[1].toUInt8.toNat < 2 ^ 8 := UInt8.toNat_lt _
  have h2 : h[2].toUInt8.toNat < 2 ^ 8 := UInt8.toNat_lt _
  have h3 : h[3].toUInt8.toNat < 2 ^ 8 := UInt8.toNat_lt _
  ext i hi
  have hbyte := toNat_encodeLength (decodeLength h) ⟨i, hi⟩
  apply Function.LeftInverse.injective Int8.toInt8_toUInt8
  apply UInt8.toNat_inj.mp
  rw [Fin.getElem_fin] at hbyte
  rw [hbyte, hdigits]
  clear hbyte hdigits
  interval_cases i <;> norm_num <;> omega

/-- The header as it stands in the stream. -/
def Header.bytes (h : Header) : Str := h.toList.map Int8.toUInt8

/-- Four bytes of the stream as a header. -/
def headerOf (bytes : Str) : Header := Vector.ofFn fun i => (bytes.getD i 0).toInt8

@[simp] theorem length_bytes (h : Header) : h.bytes.length = 4 := by simp [Header.bytes]

theorem headerOf_bytes (h : Header) : headerOf h.bytes = h := by
  ext i hi
  simp [headerOf, Header.bytes, List.getD_eq_getElem?_getD]

theorem bytes_headerOf {bytes : Str} (h : bytes.length = 4) : (headerOf bytes).bytes = bytes := by
  match bytes, h with
  | [a, b, c, d], _ => rfl

theorem bytes_injective : Function.Injective Header.bytes :=
  Function.LeftInverse.injective headerOf_bytes

/-! ## Frames -/

def frameMessage (message : Str) : Except Exn Str :=
  if 2 ^ 32 - 1 < message.length then
    .error (.lengthError (str "Message is to large to frame"))
  else .ok ((encodeLength (UInt32.ofNat message.length)).bytes ++ message)

/-- The frame of a message that a length describes. -/
def frame (message : Str) : Str := (encodeLength (UInt32.ofNat message.length)).bytes ++ message

theorem frameMessage_eq {message : Str} (h : message.length ≤ maxMessageSize) :
    frameMessage message = .ok (frame message) :=
  if_neg (by rw [maxMessageSize] at h; omega)

theorem mapM_frameMessage : ∀ {messages : List Str},
    (∀ m ∈ messages, m.length ≤ maxMessageSize) →
      messages.mapM frameMessage = .ok (messages.map frame)
  | [], _ => rfl
  | m :: ms, h => by
      rw [List.mapM_cons, frameMessage_eq (h m List.mem_cons_self),
        mapM_frameMessage fun n hn => h n (List.mem_cons_of_mem m hn)]
      rfl

/-- A header and as many bytes as it says are a frame. -/
theorem frame_eq {h : Header} {body : Str} (hlen : body.length = (decodeLength h).toNat) :
    frame body = h.bytes ++ body := by
  rw [frame, hlen, UInt32.ofNat_toNat, encodeLength_decodeLength]

theorem toNat_ofNat_length {message : Str} (h : message.length ≤ maxMessageSize) :
    (UInt32.ofNat message.length).toNat = message.length :=
  UInt32.toNat_ofNat_of_lt (h.trans_lt (by decide))

/-- A frame says where it ends. -/
theorem frame_append_inj {m m' s s' : Str} (hm : m.length ≤ maxMessageSize)
    (hm' : m'.length ≤ maxMessageSize) (h : frame m ++ s = frame m' ++ s') : m = m' ∧ s = s' := by
  rw [frame, frame, List.append_assoc, List.append_assoc] at h
  obtain ⟨hheader, hrest⟩ := List.append_inj h (by simp)
  have hlength := congrArg decodeLength (bytes_injective hheader)
  rw [decodeLength_encodeLength, decodeLength_encodeLength] at hlength
  have hlen : m.length = m'.length := by
    rw [← toNat_ofNat_length hm, ← toNat_ofNat_length hm', hlength]
  exact List.append_inj hrest hlen

/-- What frames make up the beginning of framed messages are frames of the first of them. -/
theorem prefix_of_frames : ∀ {delivered messages : List Str} {s : Str},
    (∀ m ∈ delivered, m.length ≤ maxMessageSize) → (∀ m ∈ messages, m.length ≤ maxMessageSize) →
      delivered.flatMap frame ++ s = messages.flatMap frame →
      ∃ rest, messages = delivered ++ rest ∧ s = rest.flatMap frame
  | [], messages, _, _, _, h => ⟨messages, rfl, h⟩
  | d :: ds, [], s, _, _, h => by
      simp [frame, Header.bytes] at h
  | d :: ds, m :: ms, s, hd, hm, h => by
      rw [List.flatMap_cons, List.flatMap_cons, List.append_assoc] at h
      obtain ⟨rfl, hrest⟩ := frame_append_inj (hd d List.mem_cons_self) (hm m List.mem_cons_self) h
      obtain ⟨rest, rfl, hs⟩ := prefix_of_frames (fun x hx => hd x (List.mem_cons_of_mem d hx))
        (fun x hx => hm x (List.mem_cons_of_mem d hx)) hrest
      exact ⟨rest, rfl, hs⟩

/-- What begins with a header, if it is made of frames, begins with the frame of a message. -/
theorem exists_cons_of_header {h : Header} {messages : List Str} {s : Str}
    (hmessages : ∀ m ∈ messages, m.length ≤ maxMessageSize)
    (hs : h.bytes ++ s = messages.flatMap frame) :
    ∃ m ms, messages = m :: ms ∧ (decodeLength h).toNat = m.length ∧
      m.length ≤ maxMessageSize ∧ s = m ++ ms.flatMap frame := by
  cases messages with
  | nil =>
    have hlength := congrArg List.length hs
    simp at hlength
  | cons m ms =>
    have hm := hmessages m List.mem_cons_self
    rw [List.flatMap_cons, frame, List.append_assoc] at hs
    obtain ⟨hheader, rfl⟩ := List.append_inj hs (by simp)
    rw [bytes_injective hheader, decodeLength_encodeLength, toNat_ofNat_length hm]
    exact ⟨m, ms, rfl, rfl, hm, rfl⟩

/-- Fewer than four bytes hold no frame. -/
theorem eq_nil_of_length_lt {messages : List Str} (h : (messages.flatMap frame).length < 4) :
    messages = [] := by
  cases messages with
  | nil => rfl
  | cons m ms =>
    rw [List.flatMap_cons, frame, List.length_append, List.length_append, length_bytes] at h
    omega

end Framing

/-! ## The loop -/

open Framing

/-- What the loop calls on its endpoint.  `handle` is what becomes of a message, `failed` follows an
error of a read and `refused` a length that is too large.  A handler does nothing if the token it
captured is not the endpoint's any more. -/
structure Endpoint (σ τ : Type*) where
  token : σ → τ
  connected : σ → Bool
  failed : σ → σ
  refused : σ → σ
  handle : σ → Str → σ

/-- The read in flight, with the token its handler captured. -/
inductive Phase (τ : Type*)
  | header (captured : τ)
  | body (captured : τ)
  | stopped
  deriving DecidableEq

structure ReadLoop (σ τ : Type*) where
  endpoint : σ
  phase : Phase τ
  readHeaderBuffer : Header
  readBodyBuffer : Str
  stream : Str
  delivered : List Str

/-- `async_read` into a buffer of `n` bytes: so many bytes, once they are there, and what is left. -/
def asyncRead (n : ℕ) (stream : Str) : Option (Str × Str) :=
  if n ≤ stream.length then some (stream.take n, stream.drop n) else none

/-- `resize` of the body buffer. -/
def resize (buffer : Str) (n : ℕ) : Str := buffer.take n ++ List.replicate (n - buffer.length) 0

namespace ReadLoop

variable {σ τ : Type*} [DecidableEq τ] (e : Endpoint σ τ)

/-- A loop whose first read is started. -/
def start (endpoint : σ) : ReadLoop σ τ where
  endpoint := endpoint
  phase := .header (e.token endpoint)
  readHeaderBuffer := Vector.replicate 4 0
  readBodyBuffer := []
  stream := []
  delivered := []

/-- The handler of a header; `ec` tells whether the read failed. -/
def onHeader (l : ReadLoop σ τ) (captured : τ) (ec : Bool) : ReadLoop σ τ :=
  if captured ≠ e.token l.endpoint then { l with phase := .stopped }
  else if ec then { l with endpoint := e.failed l.endpoint, phase := .stopped }
  else
    let bodyLength := (decodeLength l.readHeaderBuffer).toNat
    if maxMessageSize < bodyLength then
      { l with endpoint := e.refused l.endpoint, phase := .stopped }
    else
      { l with readBodyBuffer := resize l.readBodyBuffer bodyLength, phase := .body captured }

/-- The handler of a body. -/
def onBody (l : ReadLoop σ τ) (captured : τ) (ec : Bool) : ReadLoop σ τ :=
  if captured ≠ e.token l.endpoint then { l with phase := .stopped }
  else if ec then { l with endpoint := e.failed l.endpoint, phase := .stopped }
  else
    let message := l.readBodyBuffer
    let l := { l with
      endpoint := e.handle l.endpoint message
      delivered := l.delivered ++ [message] }
    if e.connected l.endpoint then { l with phase := .header (e.token l.endpoint) }
    else { l with phase := .stopped }

/-- What can happen to a loop: bytes arrive, the read in flight completes or fails, the endpoint
changes in another way. -/
inductive Event (σ : Type*)
  | arrive (bytes : Str)
  | read
  | fail
  | other (endpoint : σ)

def step (l : ReadLoop σ τ) : Event σ → ReadLoop σ τ
  | .arrive bytes => { l with stream := l.stream ++ bytes }
  | .read =>
    match l.phase with
    | .header captured =>
      match asyncRead 4 l.stream with
      | none => l
      | some (bytes, rest) =>
        { l with readHeaderBuffer := headerOf bytes, stream := rest }.onHeader e captured false
    | .body captured =>
      match asyncRead l.readBodyBuffer.length l.stream with
      | none => l
      | some (bytes, rest) =>
        { l with readBodyBuffer := bytes, stream := rest }.onBody e captured false
    | .stopped => l
  | .fail =>
    match l.phase with
    | .header captured => l.onHeader e captured true
    | .body captured => l.onBody e captured true
    | .stopped => l
  | .other endpoint => { l with endpoint := endpoint }

/-- The loop that events lead to. -/
def run (s : σ) (events : List (Event σ)) : ReadLoop σ τ := events.foldl (step e) (start e s)

/-- The bytes that arrive at an event. -/
def Event.bytes : Event σ → Str
  | .arrive bytes => bytes
  | .read | .fail | .other _ => []

/-- The bytes that arrive in the course of events. -/
def arrived (events : List (Event σ)) : Str := events.flatMap Event.bytes

theorem asyncRead_eq_some {n : ℕ} {s bytes rest : Str} :
    asyncRead n s = some (bytes, rest) ↔ s = bytes ++ rest ∧ bytes.length = n := by
  rw [asyncRead]
  split_ifs with h
  · rw [Option.some_inj, Prod.mk.injEq]
    constructor
    · rintro ⟨rfl, rfl⟩
      exact ⟨(List.take_append_drop n s).symm, List.length_take_of_le h⟩
    · rintro ⟨rfl, rfl⟩
      exact ⟨List.take_left, List.drop_left⟩
  · refine iff_of_false nofun ?_
    rintro ⟨rfl, rfl⟩
    exact h (by simp)

theorem asyncRead_eq_none {n : ℕ} {s : Str} : asyncRead n s = none ↔ s.length < n := by
  rw [asyncRead]
  split_ifs with h
  · exact iff_of_false id h.not_gt
  · exact iff_of_true rfl (not_le.mp h)

@[simp] theorem length_resize (buffer : Str) (n : ℕ) : (resize buffer n).length = n := by
  simp [resize]
  omega

/-! ## What the loop has consumed -/

variable {e} {l : ReadLoop σ τ} {captured : τ} {ec : Bool} {a : Str}

/-- Either the loop stops, or it reads a body of the length in the header. -/
theorem onHeader_cases (captured : τ) (ec : Bool) :
    (∃ endpoint, l.onHeader e captured ec = { l with endpoint := endpoint, phase := .stopped }) ∨
      (decodeLength l.readHeaderBuffer).toNat ≤ maxMessageSize ∧
        l.onHeader e captured ec = { l with
          readBodyBuffer := resize l.readBodyBuffer (decodeLength l.readHeaderBuffer).toNat
          phase := .body captured } := by
  simp only [onHeader]
  split_ifs with htoken hec hlen
  · exact .inl ⟨_, rfl⟩
  · exact .inl ⟨_, rfl⟩
  · exact .inl ⟨_, rfl⟩
  · exact .inr ⟨not_lt.mp hlen, rfl⟩

/-- Either the loop stops at once, or it delivers the body. -/
theorem onBody_cases (captured : τ) (ec : Bool) :
    (∃ endpoint, l.onBody e captured ec = { l with endpoint := endpoint, phase := .stopped }) ∨
      ∃ endpoint phase, (∀ c, phase ≠ .body c) ∧ l.onBody e captured ec = { l with
        endpoint := endpoint
        phase := phase
        delivered := l.delivered ++ [l.readBodyBuffer] } := by
  simp only [onBody]
  split_ifs with htoken hec hconnected
  · exact .inl ⟨_, rfl⟩
  · exact .inl ⟨_, rfl⟩
  · exact .inr ⟨_, _, by simp, rfl⟩
  · exact .inr ⟨_, _, by simp, rfl⟩

/-- What an event may make of the endpoint `s` and the bodies delivered: it calls the endpoint at most
once, and delivers the body it hands over. -/
def Effect (e : Endpoint σ τ) (s : σ) (delivered : List Str) (l : ReadLoop σ τ) : Prop :=
  l.delivered = delivered ∧
      (l.endpoint = s ∨ l.endpoint = e.failed s ∨ l.endpoint = e.refused s) ∨
    ∃ m, l.delivered = delivered ++ [m] ∧ l.endpoint = e.handle s m

theorem effect_onHeader : Effect e l.endpoint l.delivered (l.onHeader e captured ec) := by
  simp only [onHeader]
  split_ifs
  · exact .inl ⟨rfl, .inl rfl⟩
  · exact .inl ⟨rfl, .inr (.inl rfl)⟩
  · exact .inl ⟨rfl, .inr (.inr rfl)⟩
  · exact .inl ⟨rfl, .inl rfl⟩

theorem effect_onBody : Effect e l.endpoint l.delivered (l.onBody e captured ec) := by
  simp only [onBody]
  split_ifs
  · exact .inl ⟨rfl, .inl rfl⟩
  · exact .inl ⟨rfl, .inr (.inl rfl)⟩
  · exact .inr ⟨_, rfl, rfl⟩
  · exact .inr ⟨_, rfl, rfl⟩

theorem effect_step {i : Event σ} (hi : ∀ s, i ≠ .other s) :
    Effect e l.endpoint l.delivered (l.step e i) := by
  cases i with
  | arrive bytes => exact .inl ⟨rfl, .inl rfl⟩
  | read =>
    rw [step]
    cases hphase : l.phase with
    | header captured =>
      cases hread : asyncRead 4 l.stream with
      | none => exact .inl ⟨rfl, .inl rfl⟩
      | some p =>
        exact effect_onHeader (l := { l with readHeaderBuffer := headerOf p.1, stream := p.2 })
    | body captured =>
      cases hread : asyncRead l.readBodyBuffer.length l.stream with
      | none => exact .inl ⟨rfl, .inl rfl⟩
      | some p => exact effect_onBody (l := { l with readBodyBuffer := p.1, stream := p.2 })
    | stopped => exact .inl ⟨rfl, .inl rfl⟩
  | fail =>
    rw [step]
    cases l.phase with
    | header captured => exact effect_onHeader
    | body captured => exact effect_onBody
    | stopped => exact .inl ⟨rfl, .inl rfl⟩
  | other s => exact absurd rfl (hi s)

/-- The bytes `a` that arrived are the frames of the bodies delivered, what has been begun, and what is
unread.  While a body is read, its header has been begun. -/
structure Accounts (a : Str) (l : ReadLoop σ τ) : Prop where
  delivered_le : ∀ m ∈ l.delivered, m.length ≤ maxMessageSize
  length_body : ∀ c, l.phase = .body c →
    l.readBodyBuffer.length = (decodeLength l.readHeaderBuffer).toNat ∧
      l.readBodyBuffer.length ≤ maxMessageSize
  account : ∃ begun, a = l.delivered.flatMap frame ++ (begun ++ l.stream) ∧
    (∀ c, l.phase = .header c → begun = []) ∧
    ∀ c, l.phase = .body c → begun = l.readHeaderBuffer.bytes

namespace Accounts

omit [DecidableEq τ] in
theorem start (endpoint : σ) : Accounts [] (start e endpoint) where
  delivered_le _ hm := absurd hm List.not_mem_nil
  length_body := by simp [ReadLoop.start]
  account := ⟨[], rfl, fun _ _ => rfl, by simp [ReadLoop.start]⟩

omit [DecidableEq τ] in
theorem stop (h : Accounts a l) (endpoint : σ) :
    Accounts a ({ l with endpoint := endpoint, phase := .stopped } : ReadLoop σ τ) where
  delivered_le := h.delivered_le
  length_body := by simp
  account := by
    obtain ⟨begun, ha, -, -⟩ := h.account
    exact ⟨begun, ha, by simp, by simp⟩

/-- Four bytes are taken for a header. -/
theorem header (h : Accounts a l) (hphase : l.phase = .header captured) {bytes rest : Str}
    (hread : asyncRead 4 l.stream = some (bytes, rest)) :
    Accounts a ({ l with readHeaderBuffer := headerOf bytes, stream := rest }.onHeader e captured ec) := by
  obtain ⟨hstream, hfour⟩ := asyncRead_eq_some.mp hread
  obtain ⟨begun, ha, hbegun, -⟩ := h.account
  obtain rfl := hbegun captured hphase
  have hbytes : a = l.delivered.flatMap frame ++ ((headerOf bytes).bytes ++ rest) := by
    rw [bytes_headerOf hfour, ← hstream, ha, List.nil_append]
  obtain ⟨endpoint, hstop⟩ | ⟨hle, hbody⟩ := onHeader_cases (e := e)
    (l := { l with readHeaderBuffer := headerOf bytes, stream := rest }) captured ec
  · rw [hstop]
    exact ⟨h.delivered_le, by simp, _, hbytes,
      by simp, by simp⟩
  · rw [hbody]
    exact ⟨h.delivered_le, fun c _ => ⟨length_resize _ _, (length_resize _ _).trans_le hle⟩,
      _, hbytes, by simp, fun _ _ => rfl⟩

/-- The bytes of a body are taken, and with the header they are its frame. -/
theorem body (h : Accounts a l) (hphase : l.phase = .body captured) {bytes rest : Str}
    (hread : asyncRead l.readBodyBuffer.length l.stream = some (bytes, rest)) :
    Accounts a ({ l with readBodyBuffer := bytes, stream := rest }.onBody e captured ec) := by
  obtain ⟨hstream, hlength⟩ := asyncRead_eq_some.mp hread
  obtain ⟨hheader, hle⟩ := h.length_body captured hphase
  obtain ⟨begun, ha, -, hbegun⟩ := h.account
  obtain rfl := hbegun captured hphase
  obtain ⟨endpoint, hstop⟩ | ⟨endpoint, phase, hphase', hbody⟩ := onBody_cases (e := e)
    (l := { l with readBodyBuffer := bytes, stream := rest }) captured ec
  · rw [hstop]
    refine ⟨h.delivered_le, by simp, l.readHeaderBuffer.bytes ++ bytes, ?_,
      by simp, by simp⟩
    rw [ha, hstream, List.append_assoc]
  · rw [hbody]
    refine ⟨?_, fun c hc => absurd hc (hphase' c), [], ?_, fun _ _ => rfl,
      fun c hc => absurd hc (hphase' c)⟩
    · intro m hm
      obtain hm | hm := List.mem_append.mp hm
      · exact h.delivered_le m hm
      · rw [List.mem_singleton.mp hm, hlength]
        exact hle
    · have hframe : frame bytes = l.readHeaderBuffer.bytes ++ bytes :=
        frame_eq (hlength.trans hheader)
      rw [ha, hstream, List.flatMap_append, List.flatMap_singleton, hframe]
      simp only [List.append_assoc, List.nil_append]

theorem step (h : Accounts a l) (i : Event σ) : Accounts (a ++ i.bytes) (l.step e i) := by
  cases i with
  | arrive bytes =>
    obtain ⟨begun, ha, hheader, hbody⟩ := h.account
    refine ⟨h.delivered_le, h.length_body, begun, ?_, hheader, hbody⟩
    simp only [Event.bytes, ha, ReadLoop.step, List.append_assoc]
  | read =>
    rw [Event.bytes, List.append_nil, ReadLoop.step]
    cases hphase : l.phase with
    | header captured =>
      cases hread : asyncRead 4 l.stream with
      | none => exact h
      | some p => exact h.header hphase hread
    | body captured =>
      cases hread : asyncRead l.readBodyBuffer.length l.stream with
      | none => exact h
      | some p => exact h.body hphase hread
    | stopped => exact h
  | fail =>
    rw [Event.bytes, List.append_nil, ReadLoop.step]
    cases hphase : l.phase with
    | header captured =>
      simp only [onHeader]
      split_ifs
      · exact h.stop l.endpoint
      · exact h.stop (e.failed l.endpoint)
    | body captured =>
      simp only [onBody]
      split_ifs
      · exact h.stop l.endpoint
      · exact h.stop (e.failed l.endpoint)
    | stopped => exact h
  | other endpoint =>
    rw [Event.bytes, List.append_nil, ReadLoop.step]
    exact ⟨h.delivered_le, h.length_body, h.account⟩

theorem run : ∀ {events : List (Event σ)} {a : Str} {l : ReadLoop σ τ}, Accounts a l →
    Accounts (a ++ arrived events) (events.foldl (ReadLoop.step e) l)
  | [], _, _, h => by simpa [arrived] using h
  | i :: is, a, l, h => by
      have hrest : Accounts (a ++ i.bytes ++ arrived is) (is.foldl (ReadLoop.step e) (l.step e i)) :=
        run (h.step i)
      rwa [List.append_assoc, arrived, ← List.flatMap_cons] at hrest

end Accounts

/-- No body is longer than `MAX_MESSAGE_SIZE`, whatever arrives and whatever else happens. -/
theorem length_le_of_mem_delivered (s : σ) (events : List (Event σ)) :
    ∀ m ∈ (run e s events).delivered, m.length ≤ maxMessageSize :=
  (Accounts.run (Accounts.start s)).delivered_le

/-! ## What a stream of frames is read as -/

omit [DecidableEq τ] in
/-- The bodies are the first of the messages whose frames arrive, and what else has arrived belongs to
the others. -/
theorem Accounts.exists_rest {messages : List Str} {future : Str} (h : Accounts a l)
    (hmessages : ∀ m ∈ messages, m.length ≤ maxMessageSize)
    (ha : a ++ future = messages.flatMap frame) :
    ∃ rest begun, messages = l.delivered ++ rest ∧ begun ++ l.stream ++ future = rest.flatMap frame ∧
      (∀ c, l.phase = .header c → begun = []) ∧
      ∀ c, l.phase = .body c → begun = l.readHeaderBuffer.bytes := by
  obtain ⟨begun, hbegun, hheader, hbody⟩ := h.account
  rw [hbegun, List.append_assoc] at ha
  obtain ⟨rest, hrest, hframes⟩ := prefix_of_frames h.delivered_le hmessages ha
  exact ⟨rest, begun, hrest, hframes, hheader, hbody⟩

/-- The read in flight captured the token of the endpoint. -/
def Running (e : Endpoint σ τ) (l : ReadLoop σ τ) : Prop :=
  l.phase = .header (e.token l.endpoint) ∨ l.phase = .body (e.token l.endpoint)

/-- Nothing ends the connection: no read fails, the endpoint is connected after it handled a body, and
keeps its token when it changes otherwise. -/
def Undisturbed (e : Endpoint σ τ) (l : ReadLoop σ τ) : Event σ → Prop
  | .arrive _ => True
  | .read => (l.step e .read).delivered ≠ l.delivered → e.connected (l.step e .read).endpoint
  | .fail => False
  | .other endpoint => e.token endpoint = e.token l.endpoint

instance (e : Endpoint σ τ) (l : ReadLoop σ τ) : DecidablePred (Undisturbed e l)
  | .arrive _ => .isTrue trivial
  | .read => inferInstanceAs (Decidable ((l.step e .read).delivered ≠ l.delivered →
      e.connected (l.step e .read).endpoint))
  | .fail => .isFalse id
  | .other endpoint => inferInstanceAs (Decidable (e.token endpoint = e.token l.endpoint))

/-- No read fails, and what changes the endpoint otherwise keeps its token and leaves it with `p`. -/
def Calm (e : Endpoint σ τ) (p : σ → Prop) (l : ReadLoop σ τ) : Event σ → Prop
  | .arrive _ => True
  | .read => True
  | .fail => False
  | .other endpoint => e.token endpoint = e.token l.endpoint ∧ p endpoint

instance (e : Endpoint σ τ) (p : σ → Prop) [DecidablePred p] (l : ReadLoop σ τ) :
    DecidablePred (Calm e p l)
  | .arrive _ => .isTrue trivial
  | .read => .isTrue trivial
  | .fail => .isFalse id
  | .other endpoint => inferInstanceAs (Decidable (e.token endpoint = e.token l.endpoint ∧ p endpoint))

/-- How many reads have completed, if none has failed. -/
def progress (l : ReadLoop σ τ) : ℕ :=
  2 * l.delivered.length + match l.phase with
    | .body _ => 1
    | _ => 0

section Read

variable {messages : List Str} {future : Str}

/-- One read of a header, while the stream is one of frames: the loop goes on, and completes the read
if everything has arrived and not everything is delivered. -/
theorem running_header (h : Accounts a l) (hphase : l.phase = .header (e.token l.endpoint))
    (hmessages : ∀ m ∈ messages, m.length ≤ maxMessageSize)
    (ha : a ++ future = messages.flatMap frame) :
    Running e (l.step e .read) ∧
      (future = [] → l.delivered ≠ messages → (l.step e .read).progress = l.progress + 1) := by
  obtain ⟨rest, begun, rfl, hframes, hbegun, -⟩ := h.exists_rest hmessages ha
  obtain rfl := hbegun _ hphase
  rw [List.nil_append] at hframes
  have hrest : ∀ m ∈ rest, m.length ≤ maxMessageSize := fun m hm =>
    hmessages m (List.mem_append_right _ hm)
  cases hread : asyncRead 4 l.stream with
  | none =>
    have hstep : l.step e .read = l := by simp only [step, hphase, hread]
    rw [hstep]
    refine ⟨.inl hphase, fun hfuture hne => absurd ?_ hne⟩
    rw [hfuture, List.append_nil] at hframes
    have hnil : rest = [] := eq_nil_of_length_lt (by rw [← hframes]; exact asyncRead_eq_none.mp hread)
    rw [hnil, List.append_nil]
  | some p =>
    obtain ⟨hstream, hfour⟩ := asyncRead_eq_some.mp hread
    rw [hstream, List.append_assoc, ← bytes_headerOf hfour] at hframes
    obtain ⟨m, ms, -, hlength, hle, -⟩ := exists_cons_of_header hrest hframes
    have hstep : l.step e .read = { l with
        readHeaderBuffer := headerOf p.1
        stream := p.2
        readBodyBuffer := resize l.readBodyBuffer (decodeLength (headerOf p.1)).toNat
        phase := .body (e.token l.endpoint) } := by
      simp only [step, hphase, hread, onHeader, ne_eq, not_true_eq_false, if_false,
        Bool.false_eq_true, hlength, hle.not_gt]
    rw [hstep]
    exact ⟨.inr rfl, fun _ _ => by simp only [progress, hphase]⟩

/-- One read of a body. -/
theorem running_body (h : Accounts a l) (hphase : l.phase = .body (e.token l.endpoint))
    (hmessages : ∀ m ∈ messages, m.length ≤ maxMessageSize)
    (ha : a ++ future = messages.flatMap frame) (hi : l.Undisturbed e .read) :
    Running e (l.step e .read) ∧
      (future = [] → l.delivered ≠ messages → (l.step e .read).progress = l.progress + 1) := by
  obtain ⟨rest, begun, rfl, hframes, -, hbegun⟩ := h.exists_rest hmessages ha
  obtain rfl := hbegun _ hphase
  have hrest : ∀ m ∈ rest, m.length ≤ maxMessageSize := fun m hm =>
    hmessages m (List.mem_append_right _ hm)
  cases hread : asyncRead l.readBodyBuffer.length l.stream with
  | none =>
    have hstep : l.step e .read = l := by simp only [step, hphase, hread]
    rw [hstep]
    refine ⟨.inr hphase, fun hfuture _ => absurd (asyncRead_eq_none.mp hread) ?_⟩
    rw [hfuture, List.append_nil] at hframes
    obtain ⟨m, ms, -, hlength, -, hstream⟩ := exists_cons_of_header hrest hframes
    rw [(h.length_body _ hphase).1, hlength, hstream, List.length_append]
    omega
  | some p =>
    have hdelivered : (l.step e .read).delivered = l.delivered ++ [p.1] := by
      simp only [step, hphase, hread, onBody, ne_eq, not_true_eq_false, if_false,
        Bool.false_eq_true]
      split_ifs <;> rfl
    have hendpoint : (l.step e .read).endpoint = e.handle l.endpoint p.1 := by
      simp only [step, hphase, hread, onBody, ne_eq, not_true_eq_false, if_false,
        Bool.false_eq_true]
      split_ifs <;> rfl
    have hconnected : e.connected (e.handle l.endpoint p.1) :=
      hendpoint ▸ hi (by rw [hdelivered]; simp)
    have hstep : l.step e .read = { l with
        readBodyBuffer := p.1
        stream := p.2
        endpoint := e.handle l.endpoint p.1
        delivered := l.delivered ++ [p.1]
        phase := .header (e.token (e.handle l.endpoint p.1)) } := by
      simp only [step, hphase, hread, onBody, ne_eq, not_true_eq_false, if_false,
        Bool.false_eq_true, hconnected, if_true]
    rw [hstep]
    refine ⟨.inl rfl, fun _ _ => ?_⟩
    simp only [progress, hphase, List.length_append, List.length_singleton]
    omega

/-- Any event, while the stream is one of frames, leaves the loop running. -/
theorem Running.step (hrun : Running e l) (h : Accounts a l)
    (hmessages : ∀ m ∈ messages, m.length ≤ maxMessageSize)
    (ha : a ++ future = messages.flatMap frame) {i : Event σ} (hi : l.Undisturbed e i) :
    Running e (l.step e i) := by
  cases i with
  | arrive bytes => exact hrun
  | read =>
    obtain hphase | hphase := hrun
    · exact (running_header h hphase hmessages ha).1
    · exact (running_body h hphase hmessages ha hi).1
  | fail => exact hi.elim
  | other endpoint =>
    have htoken : e.token endpoint = e.token l.endpoint := hi
    rw [Running, ReadLoop.step, htoken]
    exact hrun

theorem Running.run (hmessages : ∀ m ∈ messages, m.length ≤ maxMessageSize) :
    ∀ {events : List (Event σ)} {a : Str} {l : ReadLoop σ τ}, Running e l → Accounts a l →
      a ++ arrived events = messages.flatMap frame → Along (ReadLoop.step e) (Undisturbed e) l events →
      Running e (events.foldl (ReadLoop.step e) l)
  | [], _, _, hrun, _, _, _ => hrun
  | i :: is, a, l, hrun, h, ha, hi => by
      rw [arrived, List.flatMap_cons, ← List.append_assoc] at ha
      have hnext : Running e (l.step e i) :=
        hrun.step h hmessages (by rw [← List.append_assoc, ha]) hi.1
      rw [List.foldl_cons]
      exact Running.run hmessages hnext (h.step i) ha hi.2

omit [DecidableEq τ] in
/-- While something is undelivered, reads are outstanding. -/
theorem progress_lt (h : Accounts (messages.flatMap frame) l)
    (hmessages : ∀ m ∈ messages, m.length ≤ maxMessageSize) (hne : l.delivered ≠ messages) :
    l.progress < 2 * messages.length := by
  obtain ⟨rest, begun, rfl, -⟩ := h.exists_rest hmessages (List.append_nil _)
  have hpos : 0 < rest.length :=
    List.length_pos_of_ne_nil fun hnil => hne (by rw [hnil, List.append_nil])
  rw [progress, List.length_append]
  split <;> omega

/-- When everything is delivered, nothing is left in the stream, and a read waits. -/
theorem Running.done (hrun : Running e l) (h : Accounts (messages.flatMap frame) l)
    (hdelivered : l.delivered = messages) : l.stream = [] ∧ l.step e .read = l := by
  obtain ⟨begun, hframes, hheader, hbody⟩ := h.account
  rw [hdelivered, List.self_eq_append_right, List.append_eq_nil_iff] at hframes
  obtain ⟨hbegun, hstream⟩ := hframes
  refine ⟨hstream, ?_⟩
  obtain hphase | hphase := hrun
  · have hread : asyncRead 4 l.stream = none := by
      rw [asyncRead_eq_none, hstream]
      decide
    simp only [ReadLoop.step, hphase, hread]
  · have hlength := congrArg List.length ((hbody _ hphase).symm.trans hbegun)
    rw [length_bytes] at hlength
    exact absurd hlength (by decide)

/-- While something is undelivered, and everything has arrived, a read completes. -/
theorem Running.progress_read (hrun : Running e l) (h : Accounts (messages.flatMap frame) l)
    (hmessages : ∀ m ∈ messages, m.length ≤ maxMessageSize) (hi : l.Undisturbed e .read)
    (hne : l.delivered ≠ messages) : (l.step e .read).progress = l.progress + 1 := by
  obtain hphase | hphase := hrun
  · exact (running_header h hphase hmessages (List.append_nil _)).2 rfl hne
  · exact (running_body h hphase hmessages (List.append_nil _) hi).2 rfl hne

/-- Everything is delivered, and nothing is left, after as many reads as it takes. -/
theorem Running.reads (hmessages : ∀ m ∈ messages, m.length ≤ maxMessageSize) :
    ∀ {n : ℕ} {l : ReadLoop σ τ}, Running e l → Accounts (messages.flatMap frame) l →
      Along (ReadLoop.step e) (Undisturbed e) l (List.replicate n .read) →
      2 * messages.length ≤ l.progress + n →
      ((List.replicate n .read).foldl (ReadLoop.step e) l).delivered = messages ∧
        ((List.replicate n .read).foldl (ReadLoop.step e) l).stream = []
  | 0, l, hrun, h, _, hn => by
      have hdelivered : l.delivered = messages := by
        by_contra hne
        have hlt := progress_lt h hmessages hne
        omega
      exact ⟨hdelivered, (hrun.done h hdelivered).1⟩
  | n + 1, l, hrun, h, hi, hn => by
      rw [List.replicate_succ] at hi
      have hstep : Accounts (messages.flatMap frame) (l.step e .read) := by
        have := h.step (e := e) .read
        rwa [Event.bytes, List.append_nil] at this
      have hnext : Running e (l.step e .read) :=
        hrun.step h hmessages (List.append_nil _) hi.1
      have hprogress : 2 * messages.length ≤ (l.step e .read).progress + n := by
        by_cases hdelivered : l.delivered = messages
        · have hle : 2 * l.delivered.length ≤ l.progress := Nat.le_add_right _ _
          rw [(hrun.done h hdelivered).2, ← hdelivered]
          omega
        · rw [hrun.progress_read h hmessages hi.1 hdelivered]
          omega
      rw [List.replicate_succ, List.foldl_cons]
      exact Running.reads hmessages hnext hstep hi.2 hprogress

theorem accounts_run {s : σ} {events : List (Event σ)}
    (harrived : arrived events = messages.flatMap frame) :
    Accounts (messages.flatMap frame) (ReadLoop.run e s events) :=
  harrived ▸ (Accounts.start s).run

/-- **The messages are read back.**  Their frames arrive in any pieces, anything may happen that does not
end the connection, and then there are reads enough. -/
theorem delivered_eq (hmessages : ∀ m ∈ messages, m.length ≤ maxMessageSize) {s : σ}
    {events : List (Event σ)} {n : ℕ} (harrived : arrived events = messages.flatMap frame)
    (hi : Along (step e) (Undisturbed e) (start e s) (events ++ List.replicate n Event.read))
    (hn : 2 * messages.length ≤ n) :
    (run e s (events ++ List.replicate n Event.read)).delivered = messages ∧
      (run e s (events ++ List.replicate n Event.read)).stream = [] := by
  rw [along_append] at hi
  rw [run, List.foldl_append]
  have hrun : Running e (run e s events) :=
    Running.run hmessages (.inl rfl) (Accounts.start s) harrived hi.1
  exact hrun.reads hmessages (accounts_run harrived) hi.2 (hn.trans (Nat.le_add_left _ _))

/-- However the run goes and wherever it stops, the bodies delivered are the first of the messages. -/
theorem delivered_prefix (hmessages : ∀ m ∈ messages, m.length ≤ maxMessageSize) {s : σ}
    {events : List (Event σ)} (harrived : arrived events <+: messages.flatMap frame) :
    (run e s events).delivered <+: messages := by
  obtain ⟨future, hfuture⟩ := harrived
  have haccounts : Accounts (arrived events) (run e s events) := (Accounts.start s).run
  obtain ⟨rest, begun, hrest, -⟩ := haccounts.exists_rest hmessages hfuture
  exact ⟨rest, hrest.symm⟩

/-- **What a loop makes of the frames of messages**, while `P` holds of its events: at any time the bodies
delivered are the first of the messages; they are all of them, and no bytes are left over, when all has
arrived and there are reads enough. -/
def Recovers (e : Endpoint σ τ) (P : ReadLoop σ τ → Event σ → Prop) (s : σ) (messages : List Str)
    (bytes : Str) : Prop :=
  (∀ events, arrived events <+: bytes → (run e s events).delivered <+: messages) ∧
    ∀ events n, arrived events = bytes → 2 * messages.length ≤ n →
      Along (step e) P (start e s) (events ++ List.replicate n Event.read) →
        (run e s (events ++ List.replicate n Event.read)).delivered = messages ∧
          (run e s (events ++ List.replicate n Event.read)).stream = []

/-- **The loop reads messages back** as long as nothing ends the connection. -/
theorem recovers (hmessages : ∀ m ∈ messages, m.length ≤ maxMessageSize) (s : σ) :
    Recovers e (Undisturbed e) s messages (messages.flatMap frame) :=
  ⟨fun _ harrived => delivered_prefix hmessages harrived,
    fun _ _ harrived hn hi => delivered_eq hmessages harrived hi hn⟩

/-- An endpoint that stays connected when it is called keeps the connection. -/
theorem undisturbed_of_calm {p : σ → Prop} (hconnected : ∀ s, p s → e.connected s)
    (hfailed : ∀ s, p s → p (e.failed s)) (hrefused : ∀ s, p s → p (e.refused s))
    (hhandle : ∀ s m, p s → p (e.handle s m)) {l : ReadLoop σ τ} {events : List (Event σ)}
    (hp : p l.endpoint) (hcalm : Along (step e) (Calm e p) l events) :
    Along (step e) (Undisturbed e) l events := by
  suffices hstep : ∀ (l : ReadLoop σ τ) (i : Event σ), p l.endpoint → Calm e p l i →
      Undisturbed e l i ∧ p (l.step e i).endpoint from Along.of_invariant hstep hp hcalm
  intro l i hp hi
  cases i with
  | arrive bytes => exact ⟨trivial, hp⟩
  | read =>
    have hnext : p (l.step e .read).endpoint := by
      obtain ⟨-, heq | heq | heq⟩ | ⟨m, -, heq⟩ :=
        effect_step (e := e) (l := l) (i := Event.read) (by simp)
      · rwa [heq]
      · exact heq ▸ hfailed _ hp
      · exact heq ▸ hrefused _ hp
      · exact heq ▸ hhandle _ m hp
    exact ⟨fun _ => hconnected _ hnext, hnext⟩
  | fail => exact hi.elim
  | other endpoint => exact ⟨hi.1, hi.2⟩

end Read

end ReadLoop

end CrdtEditor
