import Reprl.Channel
import Reprl.Proofs.Outcome
import Reprl.Proofs.Stream.Atoms
import Reprl.Proofs.Stream.Written

/-! The channel cannot be told how its sources cut what they hold: every sequence of
steps, with or without failures, depends on the atoms of the sources alone. A step that
succeeds takes the bytes of its own request and none of the next. Every number has one
written form of each length that holds it. -/

namespace Reprl

open Reprl.Text (Bytes)

@[simp] theorem length_bytesOfWord (count word : Nat) : (bytesOfWord count word).length = count := by
  induction count generalizing word with
  | zero => rfl
  | succ count ih => simp [bytesOfWord, ih]

/-- Reading a written number gives it back, without what does not fit. -/
theorem wordOf_bytesOfWord (count word : Nat) :
    wordOf (bytesOfWord count word) = word % Nat.pow 256 count := by
  induction count generalizing word with
  | zero => simp [bytesOfWord, wordOf, Nat.mod_one]
  | succ count ih =>
    have hb : (UInt8.ofNat (word % 256)).toNat = word % 256 := by simp
    have hm : word % (256 * Nat.pow 256 count) = word % 256 + 256 * (word / 256 % Nat.pow 256 count) :=
      Nat.mod_mul
    rw [bytesOfWord, wordOf, ih, hb, show Nat.pow 256 (count + 1) = 256 * Nat.pow 256 count from
      Nat.mul_comm _ _, hm]

theorem bytesOfWord_wordOf (bytes : Bytes) : bytesOfWord bytes.length (wordOf bytes) = bytes := by
  induction bytes with
  | nil => rfl
  | cons b rest ih =>
    have hb := b.toNat_lt
    have hlow : (b.toNat + 256 * wordOf rest) % 256 = b.toNat := by omega
    have hhigh : (b.toNat + 256 * wordOf rest) / 256 = wordOf rest := by omega
    simp [wordOf, bytesOfWord, hlow, hhigh, ih]

theorem eq_of_wordOf_eq {bytes other : Bytes} (hl : bytes.length = other.length)
    (hw : wordOf bytes = wordOf other) : bytes = other := by
  rw [← bytesOfWord_wordOf bytes, hl, hw, bytesOfWord_wordOf]

end Reprl

namespace Reprl.Channel

open Reprl.Stream Reprl.Text

variable {α β : Type}

/-- Channels with the same sink, whose sources differ at most in their pieces. -/
structure Alike (c d : Channel) : Prop where
  control : c.control.atoms = d.control.atoms
  replies : c.replies = d.replies
  data : c.data.atoms = d.data.atoms

/-- A step that does the same on channels that are alike. -/
def Blind (step : Step α) : Prop :=
  ∀ c d, Alike c d → (step c).1 = (step d).1 ∧ Alike (step c).2 (step d).2

theorem blind_pure (a : α) : Blind (pure a) := fun _ _ h => ⟨rfl, h⟩

theorem blind_throw (e : ProtocolError) : Blind (throw e : Step α) := fun _ _ h => ⟨rfl, h⟩

theorem Blind.bind {step : Step α} {next : α → Step β} (h : Blind step)
    (hn : ∀ a, Blind (next a)) : Blind (step >>= next) := by
  intro c d hcd
  obtain ⟨he, ha⟩ := h c d hcd
  simp only [Action.bind_apply]
  rcases hc : step c with ⟨result, c'⟩
  rcases hd : step d with ⟨other, d'⟩
  rw [hc, hd] at he ha
  obtain rfl : result = other := he
  cases result with
  | ok a => exact hn a c' d' ha
  | error e => exact ⟨rfl, ha⟩

theorem take_eq_of_atoms_eq {source other : Source} (h : source.atoms = other.atoms) (count : Nat) :
    (source.take count).1 = (other.take count).1 ∧
      (source.take count).2.atoms = (other.take count).2.atoms := by
  obtain ⟨hs, hs'⟩ := Source.take_atoms count source
  obtain ⟨ho, ho'⟩ := Source.take_atoms count other
  exact ⟨by rw [hs, ho, h], by rw [hs', ho', h]⟩

theorem blind_readControl (count : Nat) (failure : String → ProtocolError) :
    Blind (readControl count failure) := by
  rintro ⟨control, replies, data⟩ ⟨control', replies', data'⟩ ⟨hc, hr, hd⟩
  obtain ⟨ht, ha⟩ := take_eq_of_atoms_eq hc count
  simp only [readControl]
  rcases he : control.take count with ⟨taken, rest⟩
  rcases he' : control'.take count with ⟨taken', rest'⟩
  simp only [he, he'] at ht ha
  obtain rfl : taken = taken' := ht
  cases taken <;> exact ⟨rfl, ha, hr, hd⟩

theorem blind_readData (count : Nat) : Blind (readData count) := by
  rintro ⟨control, replies, data⟩ ⟨control', replies', data'⟩ ⟨hc, hr, hd⟩
  obtain ⟨ht, ha⟩ := take_eq_of_atoms_eq hd count
  simp only [readData]
  rcases he : data.take count with ⟨taken, rest⟩
  rcases he' : data'.take count with ⟨taken', rest'⟩
  simp only [he, he'] at ht ha
  obtain rfl : taken = taken' := ht
  cases taken <;> exact ⟨rfl, hc, hr, ha⟩

theorem blind_send (bytes : Bytes) (failure : String → ProtocolError) : Blind (send bytes failure) := by
  rintro ⟨control, replies, data⟩ ⟨control', replies', data'⟩ ⟨hc, hr, hd⟩
  cases hr
  simp only [send]
  split <;> exact ⟨rfl, hc, rfl, hd⟩

theorem blind_unless (condition : Prop) [Decidable condition] (e : ProtocolError) :
    Blind (unless condition do throw e : Step Unit) := by
  by_cases h : condition
  · simpa only [h, if_true] using blind_pure ()
  · simpa only [h, if_false] using blind_throw e

theorem blind_handshake : Blind handshake :=
  (blind_send greeting .handshakeWrite).bind fun _ =>
    (blind_readControl 4 .handshakeRead).bind fun reply =>
      blind_unless (reply = greeting) (.handshakeMismatch reply)

theorem blind_readAction : Blind readAction :=
  (blind_readControl 4 .actionRead).bind fun bytes =>
    blind_unless (wordOf bytes = execWord) (.unknownAction (wordOf bytes))

theorem blind_readScript : Blind readScript :=
  (blind_readControl 8 .sizeRead).bind fun size => blind_readData (wordOf size)

theorem blind_sendStatus (status : Nat) : Blind (sendStatus status) := blind_send _ .statusWrite

/-- What a caller can ask of a channel. -/
inductive Op where
  | handshake
  | readAction
  | readScript
  | sendStatus (status : Nat)

inductive Answer where
  | done
  | script (bytes : Bytes)
  deriving DecidableEq

def Op.perform : Op → Step Answer
  | handshake => do Channel.handshake; return .done
  | readAction => do Channel.readAction; return .done
  | readScript => return .script (← Channel.readScript)
  | sendStatus status => do Channel.sendStatus status; return .done

/-- The answers to a sequence of steps that goes on after errors, each with all bytes
sent up to then. -/
def answers : List Op → Channel → List (Except ProtocolError Answer × Bytes)
  | [], _ => []
  | op :: rest, c =>
    ((op.perform c).1, (op.perform c).2.replies.contents) :: answers rest (op.perform c).2

theorem Op.blind_perform (op : Op) : Blind op.perform := by
  cases op with
  | handshake => exact blind_handshake.bind fun _ => blind_pure _
  | readAction => exact blind_readAction.bind fun _ => blind_pure _
  | readScript => exact blind_readScript.bind fun _ => blind_pure _
  | sendStatus status => exact (blind_sendStatus status).bind fun _ => blind_pure _

theorem answers_eq_of_alike (ops : List Op) {c d : Channel} (h : Alike c d) :
    answers ops c = answers ops d := by
  induction ops generalizing c d with
  | nil => rfl
  | cons op rest ih =>
    obtain ⟨he, ha⟩ := op.blind_perform c d h
    simp only [answers, he, ha.replies, ih ha]

theorem readControl_of_ok {count : Nat} {failure : String → ProtocolError} {c c' : Channel}
    {bytes : Bytes} (h : readControl count failure c = (.ok bytes, c')) :
    bytes.length = count ∧ c.control.atoms = bytes.map .byte ++ c'.control.atoms ∧
      c'.replies = c.replies ∧ c'.data = c.data := by
  obtain ⟨control, replies, data⟩ := c
  have hd := Source.take_divides count control
  rcases he : control.take count with ⟨taken, rest⟩
  rw [he] at hd
  simp only [readControl, he] at h
  cases taken with
  | complete found =>
    cases h
    exact ⟨hd.1, hd.2, rfl, rfl⟩
  | ended found => cases h
  | failed reason => cases h

theorem readData_of_ok {count : Nat} {c c' : Channel} {bytes : Bytes}
    (h : readData count c = (.ok bytes, c')) :
    bytes.length = count ∧ c.data.atoms = bytes.map .byte ++ c'.data.atoms ∧
      c'.replies = c.replies ∧ c'.control = c.control := by
  obtain ⟨control, replies, data⟩ := c
  have hd := Source.take_divides count data
  rcases he : data.take count with ⟨taken, rest⟩
  rw [he] at hd
  simp only [readData, he] at h
  cases taken with
  | complete found =>
    cases h
    exact ⟨hd.1, hd.2, rfl, rfl⟩
  | ended found => cases h
  | failed reason => cases h

theorem readAction_of_ok {c c' : Channel} (h : readAction c = (.ok (), c')) :
    c.control.atoms = (encode "exec").map .byte ++ c'.control.atoms ∧
      c'.replies = c.replies ∧ c'.data = c.data := by
  simp only [readAction, Action.bind_apply] at h
  rcases hr : readControl 4 .actionRead c with ⟨e | bytes, after⟩
  · rw [hr] at h
    cases h
  · obtain ⟨hl, hc, hs, hd⟩ := readControl_of_ok hr
    simp only [hr] at h
    by_cases hw : wordOf bytes = execWord
    · simp only [hw, if_true] at h
      cases h
      have he : bytes = encode "exec" := eq_of_wordOf_eq (hl.trans (by decide +kernel)) hw
      exact ⟨he ▸ hc, hs, hd⟩
    · simp only [hw, if_false] at h
      cases h

theorem readScript_of_ok {c c' : Channel} {script : Bytes} (h : readScript c = (.ok script, c')) :
    ∃ size : Bytes, size.length = 8 ∧ wordOf size = script.length ∧
      c.control.atoms = size.map .byte ++ c'.control.atoms ∧
      c.data.atoms = script.map .byte ++ c'.data.atoms ∧ c'.replies = c.replies := by
  simp only [readScript, Action.bind_apply] at h
  rcases hr : readControl 8 .sizeRead c with ⟨e | size, after⟩
  · rw [hr] at h
    cases h
  · obtain ⟨hl, hc, hs, hd⟩ := readControl_of_ok hr
    simp only [hr] at h
    obtain ⟨hl', hd', hs', hc'⟩ := readData_of_ok h
    exact ⟨size, hl, hl'.symm, hc'.symm ▸ hc, hd ▸ hd', hs'.trans hs⟩

/-- Two channels whose sources become equal without interruptions and without the borders
of pieces answer every sequence of steps alike and send the same bytes. A request that is
read takes its own four, or eight and as many as announced, bytes. -/
theorem answers_eq_and_reads_exact :
    (∀ (ops : List Op) (c d : Channel), c.replies = d.replies →
      c.control.normal = d.control.normal → c.data.normal = d.data.normal →
      answers ops c = answers ops d) ∧
    (∀ c c' : Channel, readAction c = (.ok (), c') →
      c.control.atoms = (encode "exec").map .byte ++ c'.control.atoms ∧
        c'.replies = c.replies ∧ c'.data = c.data) ∧
    ∀ (c c' : Channel) (script : Bytes), readScript c = (.ok script, c') →
      ∃ size : Bytes, size.length = 8 ∧ wordOf size = script.length ∧
        c.control.atoms = size.map .byte ++ c'.control.atoms ∧
        c.data.atoms = script.map .byte ++ c'.data.atoms ∧ c'.replies = c.replies :=
  ⟨fun ops _ _ hr hc hd => answers_eq_of_alike ops
      ⟨Source.atoms_eq_of_normal_eq hc, hr, Source.atoms_eq_of_normal_eq hd⟩,
    fun _ _ h => readAction_of_ok h, fun _ _ _ h => readScript_of_ok h⟩

/-- A request for a script of two bytes, and one byte of the next script. -/
def wholeRequest : Channel where
  control := [.bytes (encode "exec" ++ bytesOfWord 8 2)]
  data := [.bytes (encode "abc")]

/-- The same request in pieces. -/
def cutRequest : Channel where
  control := [.interrupted, .bytes (encode "ex"), .bytes [], .bytes (encode "ec\x02"), .interrupted,
    .bytes (bytesOfWord 7 0)]
  data := [.bytes (encode "a"), .interrupted, .bytes (encode "bc")]

theorem answers_cutRequest :
    cutRequest.control.normal = wholeRequest.control.normal ∧
    cutRequest.data.normal = wholeRequest.data.normal ∧
    answers [.readAction, .readScript, .readScript] cutRequest =
      answers [.readAction, .readScript, .readScript] wholeRequest ∧
    (readAction cutRequest).1 = .ok () ∧ (readAction cutRequest).2.data = cutRequest.data ∧
    (readScript (readAction cutRequest).2).1 = .ok (encode "ab") ∧
    (readScript (readAction cutRequest).2).2.data.atoms = [.byte 0x63] := by
  have hc : cutRequest.control.normal = wholeRequest.control.normal := by decide +kernel
  have hd : cutRequest.data.normal = wholeRequest.data.normal := by decide +kernel
  have ha : (readAction cutRequest).1 = .ok () := by rfl
  have hs : (readScript (readAction cutRequest).2).1 = .ok (encode "ab") := by rfl
  obtain ⟨blind, action, script⟩ := answers_eq_and_reads_exact
  have hx : (readAction cutRequest).2.data = cutRequest.data :=
    (action cutRequest _ (Prod.ext ha rfl)).2.2
  obtain ⟨size, -, -, -, hdata, -⟩ := script (readAction cutRequest).2 _ _ (Prod.ext hs rfl)
  refine ⟨hc, hd, blind _ cutRequest wholeRequest rfl hc hd, ha, hx, hs, ?_⟩
  rw [hx] at hdata
  exact List.append_cancel_left (hdata.symm.trans (by decide +kernel))

end Reprl.Channel
