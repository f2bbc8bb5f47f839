import ByteSplice.Json.Pass
import ByteSplice.Proofs.Json.Grammar
import Mathlib.Data.List.TakeWhile
import Mathlib.Logic.Relation

/-!
# Going over exactly one value

A value that nobody asked for is gone over by a machine with a stack. It is never built, and its
strings are never read. So it has to be shown that the machine stops where the value ends: not at a
brace or a bracket inside a string, not at the end of an inner array, and not later either.

## Steps and runs

Where the machine stands is a `Place`, and `Place.Step` is one step of it. Every step takes at least
one character (`Place.Step.length_lt`), so the machine never runs out of fuel, and it is enough to
follow its steps (`passFrom_of_run`).

## Values

`Passes t` says that, from wherever a value may begin, the machine gets behind `t` with the same
stack. For values without parts that is one step. An array and an object push a frame first. What
they are made of is gone over piece by piece (`run_later`), each piece with the frame on the stack,
and the bracket that takes the frame away again is the right one.

A number ends where something stands that is no part of a number. That is why what stands behind a
value matters at all (`EndsNumber`).

## Main definitions

* `Place.Step` and `Place.Run`.
* `Passes`.

## Main results

* `passes_of_isValue`, `passValue_of_isValue`: one value is gone over, and nothing more.
-/

namespace ByteSplice.Json

variable {a b : Place} {c : Char} {frame : Frame} {frames : List Frame} {next : Next}
  {s t front back gap rest : List Char}

/-! ### The parts of a number -/

/-- What `passNumber` does behind a fraction. -/
def passPower : List Char → Except Fault (List Char)
  | 'e' :: s | 'E' :: s => passExponent s
  | s => .ok s

/-- What `passNumber` does behind the digits in front of the point. -/
def passFraction : List Char → Except Fault (List Char)
  | ['.'] => .error .malformed
  | '.' :: c :: s =>
    if c.isDigit then passPower (s.dropWhile Char.isDigit) else .error .malformed
  | s => passPower s

theorem passNumber_eq (s : List Char) :
    passNumber s =
      match s.takeWhile Char.isDigit with
      | [] | '0' :: _ :: _ => .error .malformed
      | _ => passFraction (s.dropWhile Char.isDigit) := by
  unfold passNumber passFraction passPower
  dsimp only
  grind

/-! ### Every step takes something -/

theorem literal_length {word : List Char} (h : literal word s = .ok rest) :
    rest.length ≤ s.length := by
  fun_induction literal word s with
  | case1 => cases h; exact Nat.le_refl _
  | case2 => cases h
  | case3 _ _ _ ih => exact Nat.le_succ_of_le (ih h)
  | case4 => cases h

theorem passExponent_length (h : passExponent s = .ok rest) : rest.length ≤ s.length := by
  have hdigits := List.length_dropWhile_le Char.isDigit
  unfold passExponent at h
  dsimp only at h
  grind

theorem passPower_length (h : passPower s = .ok rest) : rest.length ≤ s.length := by
  unfold passPower at h
  grind [→ passExponent_length]

theorem passFraction_length (h : passFraction s = .ok rest) : rest.length ≤ s.length := by
  unfold passFraction at h
  split at h
  · cases h
  · next c s =>
    split_ifs at h
    have hpower := passPower_length h
    have hdigits := List.length_dropWhile_le Char.isDigit s
    simp only [List.length_cons]
    omega
  · exact passPower_length h

theorem passNumber_length (h : passNumber s = .ok rest) : rest.length < s.length := by
  rw [passNumber_eq] at h
  split at h
  · cases h
  · cases h
  · next hnil _ =>
    have hparts := List.takeWhile_append_dropWhile (p := Char.isDigit) (l := s)
    have hlength := congrArg List.length hparts
    rw [List.length_append] at hlength
    have := List.length_pos_iff.mpr hnil
    have := passFraction_length h
    omega

theorem passString_length (h : passString s = .ok rest) : rest.length < s.length := by
  fun_induction passString s with
  | case1 => cases h
  | case2 => cases h; exact Nat.lt_succ_self _
  | case3 => cases h
  | case4 _ _ _ _ hlength ih =>
    have := ih h
    simp only [List.length_cons]
    omega
  | case5 => cases h
  | case6 _ _ _ _ _ ih => exact Nat.lt_succ_of_lt (ih h)

theorem skipBlanks_length (s : List Char) : (skipBlanks s).length ≤ s.length :=
  List.length_dropWhile_le _ s

theorem passColon_length (h : passColon s = .ok rest) : rest.length ≤ s.length := by
  have hblanks := skipBlanks_length s
  unfold passColon at h
  grind

theorem passAtom_length (h : passAtom (c :: s) = .ok rest) : rest.length ≤ s.length := by
  unfold passAtom at h
  dsimp only at h
  split_ifs at h
  · exact literal_length h
  · exact literal_length h
  · exact literal_length h
  · exact (passNumber_length h).le
  · exact Nat.le_of_lt_succ (passNumber_length h)
  · exact (passString_length h).le

theorem passStart_length (h : passStart frames (c :: s) = .ok b) : b.rest.length ≤ s.length := by
  unfold passStart at h
  split at h
  · next hc => cases hc; cases h; exact Nat.le_refl _
  · next hc => cases hc; cases h; exact Nat.le_refl _
  · cases hatom : passAtom (c :: s) with
    | error fault => simp [hatom, Except.map] at h
    | ok rest =>
      rw [hatom] at h
      cases h
      exact passAtom_length hatom

theorem passMemberStart_length (h : passMemberStart frames (c :: s) = .ok b) :
    b.rest.length ≤ s.length := by
  unfold passMemberStart at h
  split at h
  · next rest hc =>
    cases hkey : passKey rest with
    | error fault => simp [hkey, Except.map] at h
    | ok rest' =>
      rw [hkey] at h
      cases h
      cases hc
      unfold passKey at hkey
      split at hkey
      · cases hkey
      · next hstring =>
        exact (passColon_length hkey).trans (passString_length hstring).le
  · cases h

theorem passSeparator_length (h : passSeparator frames c s = .ok b) :
    b.rest.length ≤ s.length := by
  unfold passSeparator at h
  grind

theorem passStep_length (h : passStep next frames c s = .ok b) : b.rest.length ≤ s.length := by
  cases next with
  | value => exact passStart_length h
  | firstItem =>
    rw [passStep] at h
    split_ifs at h
    · cases h; exact Nat.le_refl _
    · exact passStart_length h
  | firstMember =>
    rw [passStep] at h
    split_ifs at h
    · cases h; exact Nat.le_refl _
    · exact passMemberStart_length h
  | member => exact passMemberStart_length h
  | separator => exact passSeparator_length h

/-! ### Runs -/

/-- One step leads from `a` to `b`. -/
def Place.Step (a b : Place) : Prop :=
  ∃ c rest, skipBlanks a.rest = c :: rest ∧ passStep a.next a.frames c rest = .ok b

/-- Some steps lead from `a` to `b`. -/
abbrev Place.Run : Place → Place → Prop :=
  Relation.ReflTransGen Place.Step

/-- **A step takes at least one character.** -/
theorem Place.Step.length_lt (h : a.Step b) : b.rest.length < a.rest.length := by
  obtain ⟨c, rest, hskip, hstep⟩ := h
  have hlength := skipBlanks_length a.rest
  have := passStep_length hstep
  rw [hskip, List.length_cons] at hlength
  omega

/-- A step is what `passFrom` does with one character of its fuel. -/
theorem passFrom_of_step (h : a.Step b) (d : Char) (fuel : List Char) :
    passFrom (d :: fuel) a.next a.frames a.rest = passFrom fuel b.next b.frames b.rest := by
  obtain ⟨c, rest, hskip, hstep⟩ := h
  have hgoing (hnext : a.next = .separator) (hframes : a.frames = []) : False := by
    rw [hnext, hframes] at hstep
    cases hstep
  rw [passFrom.eq_3 _ _ _ _ _ hgoing, hskip]
  simp only [hstep]

/-- **The fuel is enough**: where steps lead to the end, `passFrom` gets there. -/
theorem passFrom_of_run (h : a.Run ⟨.separator, [], s⟩) {fuel : List Char}
    (hfuel : a.rest.length ≤ fuel.length) : passFrom fuel a.next a.frames a.rest = .ok s := by
  -- The run is taken apart from its front, because that is where the fuel is spent.
  induction h using Relation.ReflTransGen.head_induction_on generalizing fuel with
  | refl => rw [passFrom]
  | @head a b hstep hmore ih =>
    have hlt := hstep.length_lt
    cases fuel with
    | nil => exact absurd (Nat.lt_of_lt_of_le hlt hfuel) (Nat.not_lt_zero _)
    | cons d fuel =>
      rw [passFrom_of_step hstep]
      refine ih ?_
      rw [List.length_cons] at hfuel
      omega

/-! ### Numbers -/

theorem ne_of_isDigit {d : Char} (hc : c.isDigit = true) (hd : d.isDigit = false) : c ≠ d := by
  rintro rfl
  exact Bool.noConfusion (hc.symm.trans hd)

/-- All digits are gone over, if something else follows. -/
theorem dropWhile_digits (h : AllDigits s) (hrest : ∀ c ∈ rest.head?, c.isDigit = false) :
    (s ++ rest).dropWhile Char.isDigit = rest := by
  rw [List.dropWhile_append_of_pos h]
  cases rest with
  | nil => rfl
  | cons c rest => exact List.dropWhile_cons_of_neg (by simp [hrest c rfl])

theorem takeWhile_digits (h : AllDigits s) (hrest : ∀ c ∈ rest.head?, c.isDigit = false) :
    (s ++ rest).takeWhile Char.isDigit = s := by
  have hparts := List.takeWhile_append_dropWhile (p := Char.isDigit) (l := s ++ rest)
  rw [dropWhile_digits h hrest] at hparts
  exact List.append_cancel_right hparts

theorem passPower_of_isExponent (h : IsExponent s) (hrest : EndsNumber rest) :
    passPower (s ++ rest) = .ok rest := by
  cases h with
  | nil =>
    rw [List.nil_append]
    unfold passPower
    split
    · exact absurd rfl (hrest 'e' rfl).2.2.1
    · exact absurd rfl (hrest 'E' rfl).2.2.2
    · rfl
  | @digits e c sign s hletter hsign hdigit hmore =>
    have hpass : passExponent (sign ++ c :: (s ++ rest)) = .ok rest := by
      have hdrop := dropWhile_digits hmore fun c hc => (hrest c hc).1
      simp only [List.mem_cons, List.not_mem_nil, or_false] at hsign
      rcases hsign with rfl | rfl | rfl
      · have hplus : c ≠ '+' := ne_of_isDigit hdigit rfl
        have hminus : c ≠ '-' := ne_of_isDigit hdigit rfl
        unfold passExponent
        grind
      · simp [passExponent, hdigit, hdrop]
      · simp [passExponent, hdigit, hdrop]
    rw [List.cons_append, List.append_assoc, List.cons_append]
    rcases hletter with rfl | rfl <;> exact hpass

theorem head?_append_isExponent (h : IsExponent s) (hrest : EndsNumber rest) :
    ∀ c ∈ (s ++ rest).head?, c.isDigit = false ∧ c ≠ '.' := by
  cases h with
  | nil => exact fun c hc => ⟨(hrest c hc).1, (hrest c hc).2.1⟩
  | digits hletter => rcases hletter with rfl | rfl <;> simp

theorem passFraction_of_isFraction (h : IsFraction t) (hexponent : IsExponent s)
    (hrest : EndsNumber rest) : passFraction (t ++ (s ++ rest)) = .ok rest := by
  have hhead := head?_append_isExponent hexponent hrest
  cases h with
  | nil =>
    rw [List.nil_append, ← passPower_of_isExponent hexponent hrest]
    unfold passFraction
    grind
  | @digits c t hdigit hmore =>
    have hdrop := dropWhile_digits hmore fun c hc => (hhead c hc).1
    simp only [List.cons_append, passFraction, hdigit, if_true, hdrop]
    exact passPower_of_isExponent hexponent hrest

theorem head?_append_isFraction (h : IsFraction t) (hexponent : IsExponent s)
    (hrest : EndsNumber rest) : ∀ c ∈ (t ++ (s ++ rest)).head?, c.isDigit = false := by
  cases h with
  | nil => exact fun c hc => (head?_append_isExponent hexponent hrest c hc).1
  | digits => simp

theorem passNumber_of_isWhole {whole : List Char} (h : IsWhole whole)
    (hrest : ∀ c ∈ rest.head?, c.isDigit = false) :
    passNumber (whole ++ rest) = passFraction rest := by
  have hdigits : AllDigits whole := by
    cases h with
    | zero => simp [AllDigits]
    | digits hdigit _ hmore => exact List.forall_mem_cons.mpr ⟨hdigit, hmore⟩
  rw [passNumber_eq, takeWhile_digits hdigits hrest, dropWhile_digits hdigits hrest]
  cases h with
  | zero => rfl
  | digits hdigit hzero _ => split <;> simp_all

theorem passNumber_of_parts {whole : List Char} (hwhole : IsWhole whole) (hfraction : IsFraction t)
    (hexponent : IsExponent s) (hrest : EndsNumber rest) :
    passNumber (whole ++ (t ++ (s ++ rest))) = .ok rest := by
  rw [passNumber_of_isWhole hwhole (head?_append_isFraction hfraction hexponent hrest),
    passFraction_of_isFraction hfraction hexponent hrest]

/-! ### Strings -/

theorem passString_quote (rest : List Char) : passString ('"' :: rest) = .ok rest := by
  rw [passString, if_pos rfl]

theorem passString_of_escape (h : passEscape s = .ok rest) :
    passString ('\\' :: s) = passString rest := by
  rw [passString, if_neg (by decide), if_pos rfl]
  split
  · next fault hfault => cases h.symm.trans hfault
  · next more hmore =>
    cases h.symm.trans hmore
    rfl

/-- A string is gone over up to the quote that ends it, not one that is escaped. -/
theorem passString_of_isString (h : IsString s) (rest : List Char) :
    passString (s ++ '"' :: rest) = .ok rest := by
  induction h with
  | nil => exact passString_quote rest
  | plain hquote hslash hcontrol hmore ih =>
    rw [List.cons_append, passString, if_neg hquote, if_neg hslash, if_neg hcontrol, ih]
  | @short letter s h hmore ih =>
    have hescape : passEscape (letter :: (s ++ '"' :: rest)) = .ok (s ++ '"' :: rest) := by
      obtain ⟨e, he, rfl⟩ := List.mem_map.mp h
      rw [passEscape, shortEscape?_of_mem e he]
    exact (passString_of_escape hescape).trans ih
  | @unit n code s h hmore ih =>
    have hescape : passEscape ('u' :: (code ++ (s ++ '"' :: rest))) = .ok (s ++ '"' :: rest) := by
      have hshort : shortEscape? 'u' = none := rfl
      simp only [passEscape, hshort, readUnit_of_unitText h, if_true]
    rw [List.cons_append, List.cons_append, List.append_assoc]
    exact (passString_of_escape hescape).trans ih

/-! ### Values without parts -/

/-- From wherever a value may begin, the machine gets behind the text. -/
def Passes (t : List Char) : Prop :=
  ∀ (next : Next) (frames : List Frame) (front rest : List Char),
    (next = .value ∨ next = .firstItem) → AllBlank front → EndsNumber rest →
      Place.Run ⟨next, frames, front ++ (t ++ rest)⟩ ⟨.separator, frames, rest⟩

/-- A step over a text that begins with `c`, and the blanks in front of it. -/
theorem step_of_passStep (hfront : AllBlank front) (hblank : isBlank c = false)
    (h : passStep next frames c rest = .ok b) :
    Place.Step ⟨next, frames, front ++ c :: rest⟩ b :=
  ⟨c, rest, skipBlanks_append hfront hblank rest, h⟩

/-- A value without parts is gone over in one step. -/
theorem passes_of_atom (hblank : isBlank c = false) (hc : c ∉ ['[', '\x7b', ']'])
    (hatom : ∀ rest, EndsNumber rest → passAtom (c :: (t ++ rest)) = .ok rest) :
    Passes (c :: t) := by
  intro next frames front rest hnext hfront hrest
  simp only [List.mem_cons, List.not_mem_nil, or_false, not_or] at hc
  obtain ⟨hbracket, hbrace, hclose⟩ := hc
  have hstart : passStart frames (c :: (t ++ rest)) = .ok ⟨.separator, frames, rest⟩ := by
    unfold passStart
    split
    · next h => cases h; exact absurd rfl hbracket
    · next h => cases h; exact absurd rfl hbrace
    · rw [hatom rest hrest]; rfl
  refine .single (step_of_passStep hfront hblank ?_)
  rcases hnext with rfl | rfl
  · exact hstart
  · exact (if_neg hclose).trans hstart

/-- A value that begins with a digit is gone over as a number. -/
theorem passes_of_digit (hdigit : c.isDigit = true)
    (h : ∀ rest, EndsNumber rest → passNumber (c :: (t ++ rest)) = .ok rest) :
    Passes (c :: t) := by
  have hne {d : Char} (hd : d.isDigit = false) : c ≠ d := ne_of_isDigit hdigit hd
  refine passes_of_atom ?_ ?_ fun rest hrest => ?_
  · simp only [isBlank, Bool.or_eq_false_iff, decide_eq_false_iff_not]
    exact ⟨⟨⟨hne rfl, hne rfl⟩, hne rfl⟩, hne rfl⟩
  · simp only [List.mem_cons, List.not_mem_nil, or_false, not_or]
    exact ⟨hne rfl, hne rfl, hne rfl⟩
  · rw [passAtom, if_neg (hne rfl), if_neg (hne rfl), if_neg (hne rfl), if_neg (hne rfl),
      if_pos hdigit]
    exact h rest hrest

theorem passes_of_isNumber (h : IsNumber t) : Passes t := by
  obtain @⟨sign, whole, fraction, exponent, hsign, hwhole, hfraction, hexponent⟩ := h
  have hpass (rest : List Char) (hrest : EndsNumber rest) :
      passNumber ((whole ++ (fraction ++ exponent)) ++ rest) = .ok rest := by
    rw [List.append_assoc, List.append_assoc]
    exact passNumber_of_parts hwhole hfraction hexponent hrest
  simp only [List.mem_cons, List.not_mem_nil, or_false] at hsign
  rcases hsign with rfl | rfl
  · cases hwhole with
    | zero => exact passes_of_digit rfl hpass
    | digits hdigit => exact passes_of_digit hdigit hpass
  · exact passes_of_atom rfl (by decide) hpass

theorem passes_of_isString (h : IsString s) : Passes ('"' :: (s ++ ['"'])) := by
  refine passes_of_atom rfl (by decide) fun rest _ => ?_
  rw [List.append_assoc]
  exact passString_of_isString h rest

/-! ### Values with parts -/

namespace Frame

/-- The bracket that opens it. -/
def opening : Frame → Char
  | array => '['
  | object => '\x7b'

/-- The bracket that closes it. -/
def closing : Frame → Char
  | array => ']'
  | object => '\x7d'

/-- What may come behind the opening bracket. -/
def first : Frame → Next
  | array => .firstItem
  | object => .firstMember

/-- What may come behind a comma. -/
def further : Frame → Next
  | array => .value
  | object => .member

end Frame

theorem step_opening (frame : Frame) (hnext : next = .value ∨ next = .firstItem)
    (hfront : AllBlank front) (rest : List Char) :
    Place.Step ⟨next, frames, front ++ frame.opening :: rest⟩
      ⟨frame.first, frame :: frames, rest⟩ := by
  refine step_of_passStep hfront (by cases frame <;> rfl) ?_
  rcases hnext with rfl | rfl <;> cases frame <;> rfl

theorem step_closing_first (frame : Frame) (hgap : AllBlank gap) (rest : List Char) :
    Place.Step ⟨frame.first, frame :: frames, gap ++ frame.closing :: rest⟩
      ⟨.separator, frames, rest⟩ :=
  step_of_passStep hgap (by cases frame <;> rfl) (by cases frame <;> rfl)

theorem step_closing (frame : Frame) (hback : AllBlank back) (rest : List Char) :
    Place.Step ⟨.separator, frame :: frames, back ++ frame.closing :: rest⟩
      ⟨.separator, frames, rest⟩ :=
  step_of_passStep hback (by cases frame <;> rfl) (by cases frame <;> rfl)

theorem step_comma (frame : Frame) (hback : AllBlank back) (rest : List Char) :
    Place.Step ⟨.separator, frame :: frames, back ++ ',' :: rest⟩
      ⟨frame.further, frame :: frames, rest⟩ :=
  step_of_passStep hback rfl (by cases frame <;> rfl)

/-- The piece is gone over, up to some blanks behind it. -/
def Leads (next : Next) (frames : List Frame) (piece : List Char) : Prop :=
  ∀ rest : List Char, EndsNumber rest → ∃ back, AllBlank back ∧
    Place.Run ⟨next, frames, piece ++ rest⟩ ⟨.separator, frames, back ++ rest⟩

theorem endsNumber_closing (pieces : List (List Char)) (frame : Frame) (rest : List Char) :
    EndsNumber (later pieces ++ frame.closing :: rest) :=
  endsNumber_later pieces (by cases frame <;> decide) rest

/-- **What is behind one piece is gone over**, to the bracket that closes the frame. -/
theorem run_later {pieces : List (List Char)}
    (h : ∀ piece ∈ pieces, Leads frame.further (frame :: frames) piece) (hback : AllBlank back)
    (rest : List Char) :
    Place.Run ⟨.separator, frame :: frames, back ++ (later pieces ++ frame.closing :: rest)⟩
      ⟨.separator, frames, rest⟩ := by
  -- The blanks behind the piece before are taken along: each comma comes after other ones.
  induction pieces generalizing back with
  | nil => exact .single (step_closing frame hback rest)
  | cons piece pieces ih =>
    obtain ⟨hpiece, hpieces⟩ := List.forall_mem_cons.mp h
    obtain ⟨back', hback', hrun⟩ := hpiece _ (endsNumber_closing pieces frame rest)
    rw [later_cons, List.cons_append, List.append_assoc]
    exact (Relation.ReflTransGen.head (step_comma frame hback _) hrun).trans (ih hpieces hback')

/-- Pieces between brackets are gone over if each of them is, first or further on. -/
theorem passes_enclosed {pieces : List (List Char)} (frame : Frame) (hgap : AllBlank gap)
    (h : ∀ piece ∈ pieces, ∀ frames gap, AllBlank gap →
      Leads frame.first (frame :: frames) (gap ++ piece) ∧
        Leads frame.further (frame :: frames) piece) :
    Passes (frame.opening :: (gap ++ (joined pieces ++ [frame.closing]))) := by
  intro next frames front rest hnext hfront hrest
  rw [List.cons_append, List.append_assoc, List.append_assoc, List.singleton_append]
  refine .head (step_opening frame hnext hfront _) ?_
  cases pieces with
  | nil => exact .single (step_closing_first frame hgap rest)
  | cons piece pieces =>
    obtain ⟨hpiece, hpieces⟩ := List.forall_mem_cons.mp h
    obtain ⟨back, hback, hrun⟩ :=
      (hpiece frames gap hgap).1 _ (endsNumber_closing pieces frame rest)
    rw [joined, List.append_assoc, ← List.append_assoc]
    exact hrun.trans (run_later (fun p hp => (hpieces p hp frames [] allBlank_nil).2) hback rest)

theorem leads_slot {x : Slot} (hpadded : x.IsPadded) (h : Passes x.text)
    (hnext : next = .value ∨ next = .firstItem) (hgap : AllBlank gap) :
    Leads next frames (gap ++ x.chars) := by
  intro rest hrest
  refine ⟨x.back, hpadded.back, ?_⟩
  rw [Slot.chars, List.append_assoc, List.append_assoc, List.append_assoc, ← List.append_assoc gap]
  exact h next frames _ _ hnext (hgap.append hpadded.front) (hrest.append hpadded.back)

theorem passColon_append (hback : AllBlank back) (rest : List Char) :
    passColon (back ++ ':' :: rest) = .ok rest := by
  simp only [passColon, skipBlanks_append hback (c := ':') rfl, if_true]

theorem step_key {w : MemberText} (hpadded : w.key.IsPadded) (h : IsString w.key.text)
    (hnext : next = .firstMember ∨ next = .member) (hgap : AllBlank gap) (rest : List Char) :
    Place.Step ⟨next, frames, gap ++ (w.chars ++ rest)⟩
      ⟨.value, frames, w.value.chars ++ rest⟩ := by
  have hkey : passKey (w.key.text ++ '"' :: (w.key.back ++ ':' :: (w.value.chars ++ rest))) =
      .ok (w.value.chars ++ rest) := by
    simp only [passKey, passString_of_isString h, passColon_append hpadded.back]
  rw [w.chars_append, ← List.append_assoc]
  refine step_of_passStep (hgap.append hpadded.front) rfl ?_
  rcases hnext with rfl | rfl
  · rw [passStep, if_neg (by decide), passMemberStart, hkey]; rfl
  · rw [passStep, passMemberStart, hkey]; rfl

theorem leads_member {w : MemberText} (hpadded : w.IsPadded) (hkey : IsString w.key.text)
    (h : Passes w.value.text) (hnext : next = .firstMember ∨ next = .member)
    (hgap : AllBlank gap) : Leads next frames (gap ++ w.chars) := by
  intro rest hrest
  have hvalue : Leads .value frames ([] ++ w.value.chars) :=
    leads_slot hpadded.value h (Or.inl rfl) allBlank_nil
  obtain ⟨back, hback, hrun⟩ := hvalue rest hrest
  refine ⟨back, hback, ?_⟩
  rw [List.append_assoc]
  exact .head (step_key hpadded.key hkey hnext hgap rest) hrun

/-! ### All values -/

/-- **One value is gone over, and nothing more**, whatever is nested in it and whatever is open
around it. -/
theorem passes_of_isValue (h : IsValue t) : Passes t := by
  induction h with
  | null => exact passes_of_atom rfl (by decide) fun rest _ => rfl
  | boolean b => cases b <;> exact passes_of_atom rfl (by decide) fun rest _ => rfl
  | number h => exact passes_of_isNumber h
  | string h => exact passes_of_isString h
  | @array gap items hgap hpadded _ ih =>
    refine passes_enclosed .array hgap fun piece hpiece frames gap hgap => ?_
    obtain ⟨x, hx, rfl⟩ := List.mem_map.mp hpiece
    exact ⟨leads_slot (hpadded x hx) (ih x hx) (Or.inr rfl) hgap,
      leads_slot (hpadded x hx) (ih x hx) (Or.inl rfl) allBlank_nil⟩
  | @object gap members hgap hpadded hkeys _ ih =>
    refine passes_enclosed .object hgap fun piece hpiece frames gap hgap => ?_
    obtain ⟨w, hw, rfl⟩ := List.mem_map.mp hpiece
    exact ⟨leads_member (hpadded w hw) (hkeys w hw) (ih w hw) (Or.inl rfl) hgap,
      leads_member (hpadded w hw) (hkeys w hw) (ih w hw) (Or.inr rfl) allBlank_nil⟩

theorem passValue_of_isValue (h : IsValue t) (hfront : AllBlank front) (hrest : EndsNumber rest) :
    passValue (front ++ (t ++ rest)) = .ok rest :=
  passFrom_of_run (passes_of_isValue h .value [] front rest (Or.inl rfl) hfront hrest)
    (Nat.le_refl _)

end ByteSplice.Json
