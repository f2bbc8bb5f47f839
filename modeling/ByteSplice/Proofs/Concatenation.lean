import ByteSplice.Plan
import ByteSplice.Proofs.Hexadecimal

/-!
# Texts side by side

Under each encoding the bytes of two texts side by side are the bytes of the one and then those of
the other. The encodings of characters go through a text character by character, so there is no more
to it than that, and of two faults the first is met first (`Encoding.encode_append`).

In hexadecimal a text can only be cut behind whole bytes. Two texts with an odd number of digits
each have none side by side that is odd, so a text may be read whose parts are not. What holds is
that two spellings side by side spell the bytes side by side (`HexSpelling.append`); blanks need no
thought, since a spelling has them anywhere.

## The zero byte

That a replacement is followed by a zero byte can be asked for in two ways: by the flag of a
request, or in the text itself, as the character U+0000 or as two digits. Everything that is planned
depends on the bytes of the replacement only, so it is the same for both.

## Main definitions

* `Encoding.nul`

## Main results

* `Encoding.encode_append`, `Encoding.encode_append_of_ok`
* `replacementOfText_append_nul`, `Rules.evaluate_append_nul`
* `Rules.encoding_respects_concatenation`
-/

namespace ByteSplice

variable {scheme : Encoding} {a b text : String} {x y bytes : Bytes}

/-! ### Two texts -/

namespace Encoding

/-- **Characters are encoded one after the other**, and the first that cannot be ends it. -/
theorem encode_append (h : scheme ≠ .hex) (a b : String) :
    scheme.encode (a ++ b) = do
      let x ← scheme.encode a
      let y ← scheme.encode b
      return x ++ y := by
  simp only [encode, String.toList_append]
  cases scheme with
  | utf8 => simp [encodeChars, List.flatMap_append, bind, Except.bind, pure, Except.pure]
  | latin1 => exact List.mapM_append
  | hex => exact absurd rfl h

/-- **Two texts that can be encoded can be encoded side by side.** -/
theorem encode_append_of_ok (ha : scheme.encode a = .ok x) (hb : scheme.encode b = .ok y) :
    scheme.encode (a ++ b) = .ok (x ++ y) := by
  by_cases hhex : scheme = .hex
  · subst hhex
    have hx : ofHex a.toList = .ok x := ha
    have hy : ofHex b.toList = .ok y := hb
    change ofHex (a ++ b).toList = .ok (x ++ y)
    rw [ofHex_eq_ok_iff] at hx hy ⊢
    rw [String.toList_append, List.flatMap_append]
    exact hx.append hy
  · rw [encode_append hhex, ha, hb]
    rfl

/-- The text of the zero byte. -/
def nul : Encoding → String
  | utf8 | latin1 => "\x00"
  | hex => "00"

theorem encode_nul (scheme : Encoding) : scheme.encode scheme.nul = .ok [0] := by
  cases scheme <;> rfl

end Encoding

/-! ### The zero byte -/

/-- The zero byte is put behind the replacement, or it is the end of the replacement. -/
theorem replacementOfText_append_nul (h : scheme.encode text = .ok bytes) :
    replacementOfText scheme (text ++ scheme.nul) false = replacementOfText scheme text true := by
  rw [replacementOfText, replacementOfText, h, Encoding.encode_append_of_ok h scheme.encode_nul]
  rfl

namespace Rules

variable {rules : Rules} {request : Request}

/-- **The flag and the text come to the same plan.** -/
theorem evaluate_append_nul (h : rules.encoding.encode request.replaceText = .ok bytes)
    (data : Bytes) :
    rules.evaluate data { request with nullTerminate := true } =
      rules.evaluate data
        { request with
          nullTerminate := false
          replaceText := request.replaceText ++ rules.encoding.nul } := by
  rw [evaluate, evaluate, survey, survey, replacementOfText_append_nul h]
  rfl

/-- **Encoding respects concatenation.**

Two texts that have bytes under an encoding have them side by side, one after the other. Where
characters are encoded the converse holds: two texts side by side have bytes only if both have, and
otherwise the fault is that of the first text, or of the second if the first has none. So the zero
byte behind a replacement may as well be written at the end of its text: a request is planned,
denied or turned down in the same way. -/
theorem encoding_respects_concatenation :
    (∀ (scheme : Encoding) (a b : String) (x y : Bytes),
      scheme.encode a = .ok x → scheme.encode b = .ok y →
        scheme.encode (a ++ b) = .ok (x ++ y)) ∧
    (∀ (scheme : Encoding) (a b : String), scheme = .utf8 ∨ scheme = .latin1 →
      (∀ z, scheme.encode (a ++ b) = .ok z →
        ∃ x y, scheme.encode a = .ok x ∧ scheme.encode b = .ok y ∧ z = x ++ y) ∧
      (∀ fault, scheme.encode a = .error fault → scheme.encode (a ++ b) = .error fault) ∧
      (∀ x fault, scheme.encode a = .ok x → scheme.encode b = .error fault →
        scheme.encode (a ++ b) = .error fault)) ∧
    (∀ (rules : Rules) (data : Bytes) (request : Request) (bytes : Bytes),
      rules.encoding.encode request.replaceText = .ok bytes →
        let flagged : Request := { request with nullTerminate := true }
        let written : Request :=
          { request with
            nullTerminate := false
            replaceText := request.replaceText ++
              if rules.encoding = .hex then "00" else "\x00" }
        rules.evaluate data flagged = rules.evaluate data written ∧
          rules.plan data flagged = rules.plan data written) := by
  refine ⟨fun scheme a b x y ha hb => Encoding.encode_append_of_ok ha hb,
    fun scheme a b hscheme => ?_, fun rules data request bytes h => ?_⟩
  · have hne : scheme ≠ .hex := by
      rcases hscheme with rfl | rfl <;> decide
    rw [Encoding.encode_append hne]
    refine ⟨fun z hz => ?_, fun fault ha => ?_, fun x fault ha hb => ?_⟩
    · cases ha : scheme.encode a with
      | error fault => simp [ha, bind, Except.bind] at hz
      | ok x =>
        cases hb : scheme.encode b with
        | error fault => simp [ha, hb, bind, Except.bind] at hz
        | ok y =>
          rw [ha, hb] at hz
          exact ⟨x, y, rfl, rfl, (Except.ok.inj hz).symm⟩
    · rw [ha]
      rfl
    · rw [ha, hb]
      rfl
  · intro flagged written
    have hnul : rules.encoding.nul = if rules.encoding = .hex then "00" else "\x00" := by
      cases rules.encoding <;> rfl
    have heval : rules.evaluate data flagged = rules.evaluate data written := by
      rw [evaluate_append_nul h data, hnul]
    refine ⟨heval, ?_⟩
    rw [plan, plan, heval]

/-- Blanks where the texts meet mean nothing in hexadecimal; in Latin-1 the euro sign is reported in
whichever of two texts it stands; and a zero byte makes the same replacement too long for the match,
whether it is asked for or written. -/
theorem encoding_respects_concatenation_euro :
    let rules : Rules := { encoding := .hex }
    let request : Request := { findText := "ad", replaceText := "d e" }
    let written : Request := { request with nullTerminate := false, replaceText := "d e00" }
    Encoding.hex.encode "d e" = .ok [0xde] ∧ Encoding.hex.encode " a d" = .ok [0xad] ∧
      Encoding.hex.encode ("d e" ++ " a d") = .ok [0xde, 0xad] ∧
      Encoding.latin1.encode "é" = .ok [0xe9] ∧
      Encoding.latin1.encode "€" = .error (.outsideLatin1 '€') ∧
      Encoding.latin1.encode ("€" ++ "é") = .error (.outsideLatin1 '€') ∧
      Encoding.latin1.encode ("é" ++ "€") = .error (.outsideLatin1 '€') ∧
      Encoding.utf8.encode ("é" ++ "€") = .ok [0xc3, 0xa9, 0xe2, 0x82, 0xac] ∧
      (∃ x y, Encoding.utf8.encode "é" = .ok x ∧ Encoding.utf8.encode "€" = .ok y ∧
        [0xc3, 0xa9, 0xe2, 0x82, 0xac] = x ++ y) ∧
      rules.plan [0xde, 0xad] request = rules.plan [0xde, 0xad] written ∧
      rules.plan [0xde, 0xad] written = .error (.overflow 1 2) := by
  intro rules request written
  obtain ⟨hok, hconverse, hplan⟩ := encoding_respects_concatenation
  have hfirst : Encoding.hex.encode "d e" = .ok [0xde] := rfl
  have hsecond : Encoding.hex.encode " a d" = .ok [0xad] := rfl
  have hacute : Encoding.latin1.encode "é" = .ok [0xe9] := rfl
  have heuro : Encoding.latin1.encode "€" = .error (.outsideLatin1 '€') := rfl
  have hboth : Encoding.utf8.encode ("é" ++ "€") = .ok [0xc3, 0xa9, 0xe2, 0x82, 0xac] := by
    decide +kernel
  have hfront := (hconverse .latin1 "€" "é" (Or.inr rfl)).2.1 _ heuro
  have hback := (hconverse .latin1 "é" "€" (Or.inr rfl)).2.2 _ _ hacute heuro
  exact ⟨hfirst, hsecond, hok _ _ _ _ _ hfirst hsecond, hacute, heuro, hfront, hback, hboth,
    (hconverse .utf8 "é" "€" (Or.inl rfl)).1 _ hboth, (hplan rules _ request _ hfirst).2,
    by decide +kernel⟩

end Rules

end ByteSplice
