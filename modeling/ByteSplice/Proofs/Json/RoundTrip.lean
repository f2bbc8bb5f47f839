import ByteSplice.Contract
import ByteSplice.Proofs.Json.Reading
import Mathlib.Logic.Function.Basic

/-!
# Requests and errors survive being written as JSON

A request and the report of an error are records. Each is written as an object with its members in a
fixed order, and read by a function that takes whatever member comes next into a draft. Here the two
are held against each other: every member that is written is taken, and the draft that holds all of
them is the record.

A text is read in one way only. So no two reports are written alike, and no two requests.

## Main results

* `ErrorReport.parse_compact`, `Request.parse_compact`
* `contract_reads_back`
-/

namespace ByteSplice

open Json

/-! ### Errors -/

namespace ErrorReport

theorem lookUp_named (kind : ErrorKind) : lookUp ErrorKind.named kind.name = .ok kind := by
  cases kind <;> rfl

/-- What is written of a report is gathered into a draft of it. -/
theorem gathers_readMember (r : ErrorReport) :
    GathersAll readMember {} [("kind", .string r.kind.name), ("message", .string r.message)]
      ⟨some r.kind, some r.message⟩ := by
  have hkind (rest : List Char) :
      readMember "kind" {} (':' :: (compactChars (.string r.kind.name) ++ rest)) =
        .ok (⟨some r.kind, none⟩, rest) := by
    rw [readMember, if_pos rfl, readOnce_none, readName_compact (lookUp_named r.kind)]
    rfl
  have hmessage (rest : List Char) :
      readMember "message" ⟨some r.kind, none⟩ (':' :: (compactChars (.string r.message) ++ rest)) =
        .ok (⟨some r.kind, some r.message⟩, rest) := by
    rw [readMember, if_neg (by decide), if_pos rfl, readOnce_none, readText_compact]
    rfl
  exact .cons hkind (.cons hmessage (.nil _))

/-- **A report is read as what was written.** -/
theorem parse_compact (r : ErrorReport) : ErrorReport.parse r.toJson.compact = .ok r := by
  refine parseWith_readRecord ?_
  rw [readObject, readMembers_compact r.gathers_readMember]

end ErrorReport

/-! ### Requests -/

namespace Request

/-- What is written of a request is gathered into a draft of it. -/
theorem gathers_readMember (r : Request) :
    GathersAll readMember {}
      [("findText", .string r.findText), ("replaceText", .string r.replaceText),
        ("nullTerminate", .boolean r.nullTerminate), ("allowOverflow", .boolean r.allowOverflow)]
      ⟨some r.findText, some r.replaceText, some r.nullTerminate, some r.allowOverflow⟩ := by
  have hfind (rest : List Char) :
      readMember "findText" {} (':' :: (compactChars (.string r.findText) ++ rest)) =
        .ok (⟨some r.findText, none, none, none⟩, rest) := by
    rw [readMember, if_pos rfl, readOnce_none, readText_compact]
    rfl
  have hreplace (rest : List Char) :
      readMember "replaceText" ⟨some r.findText, none, none, none⟩
          (':' :: (compactChars (.string r.replaceText) ++ rest)) =
        .ok (⟨some r.findText, some r.replaceText, none, none⟩, rest) := by
    rw [readMember, if_neg (by decide), if_pos rfl, readOnce_none, readText_compact]
    rfl
  have hterminate (rest : List Char) :
      readMember "nullTerminate" ⟨some r.findText, some r.replaceText, none, none⟩
          (':' :: (compactChars (.boolean r.nullTerminate) ++ rest)) =
        .ok (⟨some r.findText, some r.replaceText, some r.nullTerminate, none⟩, rest) := by
    rw [readMember, if_neg (by decide), if_neg (by decide), if_pos rfl, readOnce_none,
      readFlag_compact]
    rfl
  have hoverflow (rest : List Char) :
      readMember "allowOverflow"
          ⟨some r.findText, some r.replaceText, some r.nullTerminate, none⟩
          (':' :: (compactChars (.boolean r.allowOverflow) ++ rest)) =
        .ok (⟨some r.findText, some r.replaceText, some r.nullTerminate,
          some r.allowOverflow⟩, rest) := by
    rw [readMember, if_neg (by decide), if_neg (by decide), if_neg (by decide), if_pos rfl,
      readOnce_none, readFlag_compact]
    rfl
  exact .cons hfind (.cons hreplace (.cons hterminate (.cons hoverflow (.nil _))))

/-- **A request is read as what was written.** -/
theorem parse_compact (r : Request) : Request.parse r.toJson.compact = .ok r := by
  refine parseWith_readRecord ?_
  rw [readObject, readMembers_compact r.gathers_readMember]
  rfl

end Request

/-! ### Both -/

/-- **The public contract survives being written.** Whatever the error is and whatever texts are in
it, its report is written as an object of a kind and a message, and is read as a report of that kind
with that message. Every request is read as the request that was written. So two reports are written
alike only if they are the same, and so are two requests. -/
theorem contract_reads_back :
    (∀ e : PatchError,
      Json.parse e.report.toJson.compact =
        .ok (.object [("kind", .string e.kind.name), ("message", .string e.message)]) ∧
      ErrorReport.parse e.report.toJson.compact = .ok ⟨e.kind, e.message⟩) ∧
    (∀ r : Request, Request.parse r.toJson.compact = .ok r) ∧
    (Function.Injective fun r : ErrorReport => r.toJson.compact) ∧
    Function.Injective fun r : Request => r.toJson.compact := by
  refine ⟨fun e => ⟨parse_compact_object (by simp [IsScalar]), e.report.parse_compact⟩,
    Request.parse_compact, fun r r' h => ?_, fun r r' h => ?_⟩
  · simpa only [ErrorReport.parse_compact, Except.ok.injEq] using congrArg ErrorReport.parse h
  · simpa only [Request.parse_compact, Except.ok.injEq] using congrArg Request.parse h

/-- A quote, a backslash, a line feed, another control, and a character beyond sixteen bits. -/
example : (ErrorReport.toJson ⟨.notFound, "\"\\\n\x01😀"⟩).compact =
    "\x7b\"kind\":\"not_found\",\"message\":\"\\\"\\\\\\n\\u0001😀\"\x7d" := by
  rfl

end ByteSplice
