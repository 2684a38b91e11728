import DuvuvurKernel.Fat.Directory
import Mathlib.Data.List.DropRight

/-!
# Short names

The eleven bytes of a name in an entry and the text of the name: `ReadName` and `FormatName` make the
text, `NameIsEqual` compares an entry with one.

What `NameIsEqual` makes of a text is said by the parts of the text between its dots
(`name83_eq`): the base are the first eight bytes of the first part, and for the extension each
part behind, the rest of the first among them, starts anew over what the last has left, until one
fills it.

**Result** (`format_identifies`): the text of an entry, in upper or in lower case, is that of this name
only.
-/

namespace DuvuvurKernel.Fat

/-- `tolower`. -/
def tolower (c : UInt8) : UInt8 := if 65 ≤ c ∧ c ≤ 90 then c + 32 else c

/-- A field of `ReadName`: the blanks at its end become 0, and a C string ends at the first 0. -/
def readField (field : List UInt8) : List UInt8 := (field.rdropWhile fun c => c = blank).takeWhile fun c => c ≠ 0

variable (v : Volume) (e : EntryPtr)

/-- `ReadName`: `base` and `ext`. -/
def readName : List UInt8 × List UInt8 := (readField ((v.name e).take 8), readField ((v.name e).drop 8))

/-- `FormatName`. -/
def formatName : List UInt8 :=
  let (base, ext) := readName v e
  if ext = [] then base else base ++ dot :: ext

/-- What `NameIsEqual` compares the name of an entry with. -/
def name83 (name : List UInt8) : List UInt8 := fillName83 name 0 (List.replicate 11 blank)

/-- The parts of a name between its dots. -/
def dotParts : List UInt8 → List UInt8 × List (List UInt8)
  | [] => ([], [])
  | c :: name =>
    let (part, parts) := dotParts name
    if c = dot then ([], part :: parts) else (c :: part, parts)

/-- The extension after it has been written by each of the parts. -/
def layExtension : List (List UInt8) → List UInt8 → List UInt8
  | [], ext => ext
  | part :: parts, ext =>
    if 3 ≤ part.length then padName 3 part else layExtension parts (part.map toupper ++ ext.drop part.length)

variable {v : Volume} {e : EntryPtr} {base ext name part : List UInt8} {parts : List (List UInt8)}

/-! ### Upper case -/

@[simp] theorem toupper_eq_dot {c : UInt8} : toupper c = dot ↔ c = dot := by
  simp only [toupper, dot]
  grind

@[simp] theorem toupper_eq_blank {c : UInt8} : toupper c = blank ↔ c = blank := by
  simp only [toupper, blank]
  grind

@[simp] theorem toupper_blank : toupper blank = blank := toupper_eq_blank.mpr rfl

@[simp] theorem toupper_toupper (c : UInt8) : toupper (toupper c) = toupper c := by
  simp only [toupper]
  grind

@[simp] theorem toupper_tolower (c : UInt8) : toupper (tolower c) = toupper c := by
  simp only [toupper, tolower]
  grind

/-- Case makes no difference to `NameIsEqual`. -/
theorem fillName83_map_toupper (name : List UInt8) (i : ℕ) (buf : List UInt8) :
    fillName83 (name.map toupper) i buf = fillName83 name i buf := by
  induction name generalizing i buf with
  | nil => rfl
  | cons c name ih => simp only [List.map_cons, fillName83, toupper_eq_dot, toupper_toupper, ih]

theorem name83_congr {name' : List UInt8} (h : name'.map toupper = name.map toupper) : name83 name' = name83 name := by
  rw [name83, name83, ← fillName83_map_toupper, h, fillName83_map_toupper]

theorem nameIsEqual_iff : nameIsEqual v e name ↔ v.name e = name83 name := by
  rw [nameIsEqual, decide_eq_true_iff, name83]

/-! ### The parts of a name -/

@[simp] theorem dotParts_nil : dotParts [] = ([], []) := rfl

theorem dotParts_dot (name : List UInt8) : dotParts (dot :: name) = ([], (dotParts name).1 :: (dotParts name).2) := by
  simp [dotParts]

theorem dotParts_cons {c : UInt8} (hc : c ≠ dot) (name : List UInt8) :
    dotParts (c :: name) = (c :: (dotParts name).1, (dotParts name).2) := by
  simp [dotParts, hc]

theorem dotParts_of_notMem (h : dot ∉ name) : dotParts name = (name, []) := by
  induction name with
  | nil => rfl
  | cons c name ih =>
    obtain ⟨hc, hname⟩ := not_or.mp (mt List.mem_cons.mpr h)
    rw [dotParts_cons (Ne.symm hc), ih hname]

theorem dotParts_append (h : dot ∉ base) (name : List UInt8) :
    dotParts (base ++ dot :: name) = (base, (dotParts name).1 :: (dotParts name).2) := by
  induction base with
  | nil => exact dotParts_dot name
  | cons c base ih =>
    obtain ⟨hc, hbase⟩ := not_or.mp (mt List.mem_cons.mpr h)
    rw [List.cons_append, dotParts_cons (Ne.symm hc), ih hbase]

theorem dot_notMem_dotParts (name : List UInt8) : dot ∉ (dotParts name).1 ∧ ∀ part ∈ (dotParts name).2, dot ∉ part := by
  induction name with
  | nil => simp
  | cons c name ih =>
    by_cases hc : c = dot
    · subst hc
      rw [dotParts_dot]
      exact ⟨List.not_mem_nil, List.forall_mem_cons.mpr ih⟩
    · rw [dotParts_cons hc]
      exact ⟨List.not_mem_cons_of_ne_of_not_mem (Ne.symm hc) ih.1, ih.2⟩

/-- The parts with the dots between them are the name. -/
theorem dotParts_join (name : List UInt8) : (dotParts name).1 ++ (dotParts name).2.flatMap (dot :: ·) = name := by
  induction name with
  | nil => rfl
  | cons c name ih =>
    by_cases hc : c = dot
    · subst hc
      rw [dotParts_dot, List.nil_append, List.flatMap_cons, List.cons_append, ih]
    · rw [dotParts_cons hc, List.cons_append, ih]

theorem dotParts_map_toupper (name : List UInt8) :
    dotParts (name.map toupper) = ((dotParts name).1.map toupper, (dotParts name).2.map (·.map toupper)) := by
  induction name with
  | nil => rfl
  | cons c name ih =>
    rw [List.map_cons]
    by_cases hc : c = dot
    · subst hc
      rw [toupper_eq_dot.mpr rfl, dotParts_dot, dotParts_dot, ih]
      rfl
    · rw [dotParts_cons (mt toupper_eq_dot.mp hc), dotParts_cons hc, ih]
      rfl

theorem padName_of_length {n : ℕ} (h : part.length = n) : padName n part = part.map toupper := by
  simp [padName, ← h]

@[simp] theorem layExtension_nil_cons (buf : List UInt8) : layExtension ([] :: parts) buf = layExtension parts buf := by
  simp [layExtension]

theorem layExtension_singleton (part : List UInt8) : layExtension [part] (List.replicate 3 blank) = padName 3 part := by
  rw [layExtension]
  split
  next => rfl
  next h =>
    rw [layExtension, padName, List.take_of_length_le (by omega), List.drop_replicate]

/-! ### What `NameIsEqual` compares with -/

/-- The loop from index `8 + j` on, when the part so far has the bytes `x` and `buf` was there before
it. -/
theorem fillName83_extension (name b x buf : List UInt8) (hb : b.length = 8) (hx : x.length ≤ 3)
    (hbuf : buf.length = 3) :
    fillName83 name (8 + x.length) (b ++ (x.map toupper ++ buf.drop x.length)) =
      b ++ layExtension ((x ++ (dotParts name).1) :: (dotParts name).2) buf := by
  induction name generalizing x buf with
  | nil =>
    rw [fillName83, dotParts_nil, List.append_nil, layExtension]
    split
    next h =>
      rw [padName_of_length (by omega), List.drop_of_length_le (by omega), List.append_nil]
    next h => rw [layExtension]
  | cons c name ih =>
    rw [fillName83]
    rcases Nat.lt_or_ge x.length 3 with hlt | hge
    · rw [if_pos (by omega)]
      by_cases hc : c = dot
      · subst hc
        have hlen : (x.map toupper ++ buf.drop x.length).length = 3 := by simp; omega
        have hnew := ih [] _ (Nat.zero_le _) hlen
        rw [if_pos rfl, dotParts_dot, List.append_nil, layExtension, if_neg (by omega)]
        simpa using hnew
      · have hnew := ih (x ++ [c]) buf (by simpa using hlt) hbuf
        have hset : (b ++ (x.map toupper ++ buf.drop x.length)).set (8 + x.length) (toupper c) =
            b ++ ((x ++ [c]).map toupper ++ buf.drop (x ++ [c]).length) := by
          rw [List.set_append_right _ _ (by omega), hb, Nat.add_sub_cancel_left, List.set_append_right _ _ (by simp),
            List.length_map, Nat.sub_self, List.drop_eq_getElem_cons (by omega), List.set_cons_zero]
          simp
        rw [if_neg hc, hset, dotParts_cons hc]
        simpa [Nat.add_assoc] using hnew
    · rw [if_neg (by omega), layExtension, if_pos (by rw [List.length_append]; omega),
        List.drop_of_length_le (by omega), List.append_nil, padName, List.take_append_of_le_length hge]
      simp only [List.take_of_length_le hx]
      rw [Nat.sub_eq_zero_of_le (by rw [List.length_append]; omega), List.replicate_zero, List.append_nil]

/-- The loop in the base, of which the bytes `x` have been filled in. -/
theorem fillName83_base (name x : List UInt8) (hx : x.length ≤ 8) :
    fillName83 name x.length (x.map toupper ++ List.replicate (8 - x.length) blank ++ List.replicate 3 blank) =
      padName 8 (x ++ (dotParts name).1) ++
        layExtension ((x ++ (dotParts name).1).drop 8 :: (dotParts name).2) (List.replicate 3 blank) := by
  induction name generalizing x with
  | nil =>
    rw [fillName83, dotParts_nil, List.append_nil, List.drop_of_length_le hx, layExtension_nil_cons, layExtension,
      padName, List.take_of_length_le hx]
  | cons c name ih =>
    rcases Nat.lt_or_ge x.length 8 with hlt | hge
    · rw [fillName83, if_pos (by omega)]
      by_cases hc : c = dot
      · subst hc
        have hlen : (x.map toupper ++ List.replicate (8 - x.length) blank).length = 8 := by simp; omega
        have hnew := fillName83_extension name _ [] (List.replicate 3 blank) hlen (by simp) (by simp)
        rw [if_pos rfl, dotParts_dot, List.append_nil, List.drop_of_length_le hx, layExtension_nil_cons, padName,
          List.take_of_length_le hx]
        simpa using hnew
      · have hnew := ih (x := x ++ [c]) (by simpa using hlt)
        have hset : (x.map toupper ++ List.replicate (8 - x.length) blank ++ List.replicate 3 blank).set x.length
          (toupper c) =
            (x ++ [c]).map toupper ++ List.replicate (8 - (x ++ [c]).length) blank ++ List.replicate 3 blank := by
          rw [List.append_assoc, List.set_append_right _ _ (by simp), List.length_map, Nat.sub_self,
            show 8 - x.length = 8 - (x ++ [c]).length + 1 by simp; omega, List.replicate_succ]
          simp
        rw [if_neg hc, hset, dotParts_cons hc]
        simpa using hnew
    · have hlen : x.length = 8 := by omega
      have hnew := fillName83_extension (c :: name) (x.map toupper) [] (List.replicate 3 blank)
        (by simpa using hlen) (by simp) (by simp)
      rw [hlen, Nat.sub_self, List.replicate_zero, List.append_nil, List.drop_append_of_le_length (by omega),
        List.drop_of_length_le (by omega)]
      rw [padName, List.take_append_of_le_length (by omega), List.take_of_length_le hx,
        Nat.sub_eq_zero_of_le (by rw [List.length_append]; omega), List.replicate_zero, List.append_nil]
      simpa using hnew

/-- **What `NameIsEqual` compares with.** -/
theorem name83_eq (name : List UInt8) : name83 name =
    padName 8 (dotParts name).1 ++ layExtension ((dotParts name).1.drop 8 :: (dotParts name).2)
        (List.replicate 3 blank) := by
  have hbase := fillName83_base name [] (by simp)
  simpa [name83] using hbase

/-- A name of a base and an extension. -/
theorem name83_dot (hbase : dot ∉ base) (hext : dot ∉ ext) (hlen : base.length ≤ 8) :
    name83 (base ++ dot :: ext) = padName 8 base ++ padName 3 ext := by
  rw [name83_eq, dotParts_append hbase, dotParts_of_notMem hext, List.drop_of_length_le hlen, layExtension_nil_cons,
    layExtension_singleton]

/-- A name of a base only. -/
theorem name83_base (hbase : dot ∉ base) (hlen : base.length ≤ 8) : name83 base = padName 8 base ++ padName 3 [] := by
  rw [name83_eq, dotParts_of_notMem hbase, List.drop_of_length_le hlen, layExtension_nil_cons]
  rfl

/-! ### What `SetFileName` makes of a name -/

theorem strrchr_eq_none_iff {c : UInt8} {s : List UInt8} : strrchr c s = none ↔ c ∉ s := by
  induction s with
  | nil => simp [strrchr]
  | cons x s ih =>
    rw [strrchr, List.mem_cons, not_or, ← ih]
    cases strrchr c s with
    | some p => simp
    | none => simp [eq_comm]

theorem strrchr_append {c : UInt8} {behind : List UInt8} (h : c ∉ behind) (before : List UInt8) :
    strrchr c (before ++ c :: behind) = some (before, behind) := by
  induction before with
  | nil =>
    rw [List.nil_append, strrchr, strrchr_eq_none_iff.mpr h]
    exact if_pos rfl
  | cons x before ih => rw [List.cons_append, strrchr, ih]

/-- What is found is the last occurrence. -/
theorem of_strrchr {c : UInt8} {s before behind : List UInt8} (h : strrchr c s = some (before, behind)) :
    s = before ++ c :: behind ∧ c ∉ behind := by
  induction s generalizing before with
  | nil => cases h
  | cons x s ih =>
    rw [strrchr] at h
    split at h
    next before' behind' hs =>
      cases h
      obtain ⟨rfl, hbehind⟩ := ih hs
      exact ⟨rfl, hbehind⟩
    next hs =>
      split at h
      next hx =>
        cases h
        exact ⟨by rw [hx, List.nil_append], strrchr_eq_none_iff.mp hs⟩
      next => cases h

theorem shortName_of_notMem (h : dot ∉ name) : shortName name = padName 8 name ++ padName 3 [] := by
  rw [shortName, strrchr_eq_none_iff.mpr h]

theorem shortName_dot (h : dot ∉ ext) (base : List UInt8) :
    shortName (base ++ dot :: ext) = padName 8 base ++ padName 3 ext := by
  rw [shortName, strrchr_append h]

/-! ### The text of an entry -/

theorem length_readField_le (field : List UInt8) : (readField field).length ≤ field.length :=
  (List.takeWhile_prefix _).length_le.trans (List.rdropWhile_prefix _ _).length_le

theorem length_name : (v.name e).length = 11 := by simp [Volume.name]

theorem length_base_le : (readName v e).1.length ≤ 8 := by
  refine (length_readField_le _).trans ?_
  rw [List.length_take]
  exact Nat.min_le_left _ _

theorem length_ext_le : (readName v e).2.length ≤ 3 := by
  refine (length_readField_le _).trans ?_
  rw [List.length_drop, length_name]

theorem formatName_eq : formatName v e =
    if (readName v e).2 = [] then (readName v e).1 else (readName v e).1 ++ dot :: (readName v e).2 := rfl

/-- It fits a buffer of thirteen bytes with its terminator. -/
theorem length_formatName_lt : (formatName v e).length + 1 ≤ 13 := by
  have hbase := length_base_le (v := v) (e := e)
  have hext := length_ext_le (v := v) (e := e)
  rw [formatName_eq]
  split
  next => omega
  next =>
    rw [List.length_append, List.length_cons]
    omega

/-- Bytes of a name that its text gives back: no 0, no dot and no lower-case letter. -/
def IsPlain (bytes : List UInt8) : Prop := ∀ c ∈ bytes, c ≠ 0 ∧ c ≠ dot ∧ toupper c = c

instance (bytes : List UInt8) : Decidable (IsPlain bytes) := inferInstanceAs (Decidable (∀ c ∈ bytes, _))

theorem IsPlain.readField (h : IsPlain part) : readField part = part.rdropWhile fun c => c = blank :=
  List.takeWhile_eq_self_iff.mpr fun c hc => by simpa using (h c ((List.rdropWhile_prefix _ _).subset hc)).1

/-- The blanks at the end of a field come back. -/
theorem IsPlain.padName (h : IsPlain part) : padName part.length (Fat.readField part) = part := by
  have hblank : part.rtakeWhile (fun c => c = blank) = List.replicate (part.rtakeWhile fun c => c = blank).length
      blank :=
    List.eq_replicate_of_mem fun c hc => by simpa using List.mem_rtakeWhile_imp hc
  have hsplit : (part.rdropWhile fun c => c = blank) ++ (part.rtakeWhile fun c => c = blank) = part :=
    List.rdropWhile_append_rtakeWhile
  have hlen := congrArg List.length hsplit
  rw [List.length_append] at hlen
  have hupper : (part.rdropWhile fun c => c = blank).map toupper = part.rdropWhile fun c => c = blank := by
    refine (List.map_congr_left fun c hc => ?_).trans (List.map_id _)
    exact (h c ((List.rdropWhile_prefix _ _).subset hc)).2.2
  rw [h.readField, Fat.padName, List.take_of_length_le (by omega), hupper]
  conv_rhs => rw [← hsplit, hblank]
  congr 2
  omega

theorem IsPlain.readField_dot (h : IsPlain part) : dot ∉ Fat.readField part := fun hmem =>
  (h dot ((List.rdropWhile_prefix _ _).subset ((List.takeWhile_prefix _).subset hmem))).2.1 rfl

/-- The name of an entry is what `NameIsEqual` makes of its text. -/
theorem name83_formatName (h : IsPlain (v.name e)) : name83 (formatName v e) = v.name e := by
  have hlen := length_name (v := v) (e := e)
  have hbase : IsPlain ((v.name e).take 8) := fun c hc => h c (List.mem_of_mem_take hc)
  have hext : IsPlain ((v.name e).drop 8) := fun c hc => h c (List.mem_of_mem_drop hc)
  have hpad := hbase.padName
  have hpad' := hext.padName
  rw [List.length_take, hlen] at hpad
  rw [List.length_drop, hlen] at hpad'
  have hname : padName 8 (readName v e).1 ++ padName 3 (readName v e).2 = v.name e := by
    conv_rhs => rw [← List.take_append_drop 8 (v.name e)]
    exact congrArg₂ _ hpad hpad'
  rw [formatName_eq]
  split
  next hnil =>
    rw [← hname, hnil]
    exact name83_base hbase.readField_dot length_base_le
  next =>
    rw [← hname]
    exact name83_dot hbase.readField_dot hext.readField_dot length_base_le

/-- **The text of an entry** fits the buffer of `FormatName` and is, in upper and in lower case, equal
to the name of this entry, and to no other well-formed name. -/
theorem format_identifies (h : IsPlain (v.name e)) :
    nameIsEqual v e (formatName v e) ∧ nameIsEqual v e ((formatName v e).map tolower) ∧
      (formatName v e).length + 1 ≤ 13 ∧
      ∀ (v' : Volume) (e' : EntryPtr), IsPlain (v'.name e') → v'.name e' ≠ v.name e →
        nameIsEqual v' e' (formatName v e) = false := by
  have hupper := name83_formatName h
  have hlower : name83 ((formatName v e).map tolower) = v.name e := by
    rw [← hupper]
    exact name83_congr (by simp [Function.comp_def])
  refine ⟨nameIsEqual_iff.mpr hupper.symm, nameIsEqual_iff.mpr hlower.symm, length_formatName_lt, fun v' e' _ hne => ?_⟩
  rw [← Bool.not_eq_true, nameIsEqual_iff, hupper]
  exact hne

/-- A volume with these bytes at the start of its clusters, of which the third is in use. -/
def bytesVolume (bytes : List UInt8) : Volume where
  fat := fun cluster => if cluster = 2 then kEndOfClusterchain else 0
  data := fun _ o => bytes.getD o 0

/-- The name `A B     C  `, with a blank inside. -/
def blankInside : List UInt8 := [65, 32, 66, 32, 32, 32, 32, 32, 67, 32, 32]

/-- Its text is `A B.C`, or `a b.c`. -/
theorem format_identifies_blank : nameIsEqual (bytesVolume blankInside) ⟨2, 0⟩ [97, 32, 98, 46, 99] := by
  have hname : (bytesVolume blankInside).name ⟨2, 0⟩ = blankInside := rfl
  have hplain : IsPlain ((bytesVolume blankInside).name ⟨2, 0⟩) := by
    rw [hname]
    simp [IsPlain, blankInside, dot, toupper]
  exact (format_identifies hplain).2.1

end DuvuvurKernel.Fat
