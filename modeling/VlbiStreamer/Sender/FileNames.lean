import Mathlib.Data.List.TakeWhile
import VlbiStreamer.Library.BasicRegex
import VlbiStreamer.Sender.CheckFiles

/-!
# Names of data files, written and read back

`common_open_new_file` names the file number `k` of a recording with `%s.%08ld`.
`common_check_files` and the file system look for such names with a regular expression that
is made from the name of the recording, and take the last eight characters for the number.

The two do not fit together.  The name of the recording is not escaped, so it need not match
itself; a dot and a star of it match more than they should; the expression is not held at the
end; and a number of nine digits is cut off.  `readBack_iff` says which entries of a directory
are read back as what they are.  `CheckFiles` has the search itself, for names whose
characters stand for themselves (`regexMatches_of_plain`).
-/

namespace VlbiStreamer.Sender

open Library

/-- `sprintf(regstring, "^%s.[0-9][0-9][0-9][0-9][0-9][0-9][0-9][0-9]", opt->filename)` -/
def dataFilePattern (filename : String) : List Char :=
  '^' :: (filename.toList ++
    '.' :: (List.replicate indexingLength "[0-9]".toList).flatten)

/-- `regcomp` gives an expression and `regexec` finds it. -/
def regexMatches (filename : String) (entry : List Char) : Bool :=
  ((Bre.compile (dataFilePattern filename)).map (Bre.search · entry)).getD false

/-- The number that an entry of the directory is taken for. -/
def recognised (filename : String) (entry : List Char) : Option ℤ :=
  if regexMatches filename entry then some (readIndex entry) else none

/-- The file that an entry is taken for, of a recording with `nFiles` files. -/
def counted (filename : String) (nFiles : ℕ) (entry : List Char) : Option ℕ :=
  (recognised filename entry).bind fun temp =>
    -- "Extra files found in dir named!"
    if nFiles ≤ unsignedLong temp then none else some (unsignedLong temp)

/-- A data file is recognised as its own number, and nothing else is counted as a data file. -/
structure ReadBack (filename : String) (nFiles : ℕ) (entry : List Char) : Prop where
  own : ∀ k : ℕ, entry = dataFileName filename k → recognised filename entry = some (k : ℤ)
  other : (∀ k, entry ≠ dataFileName filename k) → counted filename nFiles entry = none

/-- A data file with a number of eight digits that the expression finds, or an entry that
it does not find or that ends in the number of no file. -/
def Unmistakable (filename : String) (nFiles : ℕ) (entry : List Char) : Prop :=
  (∃ k < 10 ^ indexingLength, entry = dataFileName filename k ∧ regexMatches filename entry) ∨
    ((∀ k, entry ≠ dataFileName filename k) ∧
      (regexMatches filename entry → nFiles ≤ unsignedLong (readIndex entry)))

/-- The entry starts with the name, any character and eight digits. -/
def LooksLikeFile (filename : String) (entry : List Char) : Prop :=
  ∃ c digits rest, entry = filename.toList ++ c :: (digits ++ rest) ∧
    digits.length = indexingLength ∧ ∀ d ∈ digits, d.isDigit = true

/-! ## The number in a name -/

/-- What stands behind the dot. -/
def fileDigits (k : ℕ) : List Char :=
  List.replicate (indexingLength - (toString k).toList.length) '0' ++ (toString k).toList

theorem dataFileName_eq (filename : String) (k : ℕ) :
    dataFileName filename k = filename.toList ++ '.' :: fileDigits k := by
  simp [dataFileName, fileDigits]

theorem toList_toString (k : ℕ) : (toString k).toList = Nat.toDigits 10 k := by
  rw [Nat.toString_eq_ofList_toDigits, String.toList_ofList]

theorem isDigit_of_mem_fileDigits {k : ℕ} {c : Char} (h : c ∈ fileDigits k) :
    c.isDigit = true := by
  rcases List.mem_append.mp h with hzero | hdigit
  · rw [List.eq_of_mem_replicate hzero]
    rfl
  · rw [toList_toString] at hdigit
    exact Nat.isDigit_of_mem_toDigits (by decide) (by decide) hdigit

theorem indexingLength_le_length (k : ℕ) : indexingLength ≤ (fileDigits k).length := by
  rw [fileDigits, List.length_append, List.length_replicate]
  omega

theorem ofDigitChars_fileDigits (k : ℕ) : Nat.ofDigitChars 10 (fileDigits k) 0 = k := by
  rw [fileDigits, Nat.ofDigitChars_append, Nat.ofDigitChars_replicate_zero, Nat.mul_zero,
    toList_toString, Nat.ofDigitChars_ten_toDigits]

/-- Digits stand for a number with no more digits. -/
theorem ofDigitChars_lt {digits : List Char} (h : ∀ c ∈ digits, c.isDigit = true) :
    Nat.ofDigitChars 10 digits 0 < 10 ^ digits.length := by
  induction digits with
  | nil => simp
  | cons c cs ih =>
      have hc : c.toNat - '0'.toNat < 10 := by
        have hdigit := h c List.mem_cons_self
        simp only [Char.isDigit, Bool.and_eq_true, decide_eq_true_eq, UInt32.le_iff_toNat_le]
          at hdigit
        have hle : c.toNat ≤ 57 := hdigit.2
        show c.toNat - 48 < 10
        omega
      have hcs := ih fun d hd => h d (List.mem_cons_of_mem _ hd)
      have hmul : 10 ^ cs.length * (c.toNat - '0'.toNat) ≤ 10 ^ cs.length * 9 :=
        Nat.mul_le_mul_left _ (Nat.le_of_lt_succ hc)
      rw [Nat.ofDigitChars_cons, Nat.ofDigitChars_eq_ofDigitChars_zero, List.length_cons,
        Nat.pow_succ, Nat.mul_zero, Nat.zero_add]
      omega

/-- `atoi` of digits. -/
theorem atoi_of_digits {digits : List Char} (h : ∀ c ∈ digits, c.isDigit = true) :
    atoi digits = Nat.ofDigitChars 10 digits 0 := by
  have hvalue : digitsValue digits = Nat.ofDigitChars 10 digits 0 := by
    rw [digitsValue, List.takeWhile_eq_self_iff.mpr h, Nat.ofDigitChars_eq_foldl]
  unfold atoi
  split
  · rfl
  next cs => exact absurd (h '-' List.mem_cons_self) (by decide)
  next cs => exact absurd (h '+' List.mem_cons_self) (by decide)
  next c cs _ _ =>
    have hspace : Library.isSpace c = false := by
      by_contra hne
      have hc := h c List.mem_cons_self
      simp only [Library.isSpace, Char.isWhitespace, Bool.not_eq_false, Bool.or_eq_true,
        decide_eq_true_eq, beq_iff_eq] at hne
      rcases hne with ((((rfl | rfl) | rfl) | rfl) | rfl) | rfl <;> exact absurd hc (by decide)
    rw [if_neg (by simp [hspace]), hvalue]

/-- **Only the last eight digits of a number are read.** -/
theorem readIndex_dataFileName (filename : String) (k : ℕ) :
    readIndex (dataFileName filename k) = ((k % 10 ^ indexingLength : ℕ) : ℤ) := by
  obtain ⟨before, last, hsplit, hlast⟩ : ∃ before last, fileDigits k = before ++ last ∧
      last.length = indexingLength := by
    refine ⟨(fileDigits k).take ((fileDigits k).length - indexingLength),
      (fileDigits k).drop ((fileDigits k).length - indexingLength),
      (List.take_append_drop _ _).symm, ?_⟩
    rw [List.length_drop]
    have := indexingLength_le_length k
    omega
  have hdigits : ∀ c ∈ last, c.isDigit = true := fun c hc =>
    isDigit_of_mem_fileDigits (k := k) (by rw [hsplit]; exact List.mem_append_right _ hc)
  have hname : dataFileName filename k = (filename.toList ++ '.' :: before) ++ last := by
    rw [dataFileName_eq, hsplit]
    simp
  have hdrop : (dataFileName filename k).drop
      ((dataFileName filename k).length - indexingLength) = last := by
    rw [hname, List.drop_append, List.length_append, hlast]
    simp
  have hvalue := ofDigitChars_fileDigits k
  rw [hsplit, Nat.ofDigitChars_append, Nat.ofDigitChars_eq_ofDigitChars_zero, hlast] at hvalue
  have hlt := ofDigitChars_lt hdigits
  rw [hlast] at hlt
  rw [readIndex, hdrop, atoi_of_digits hdigits]
  congr 1
  rw [← hvalue, Nat.mul_add_mod, Nat.mod_eq_of_lt hlt]

/-! ## The expression of a plain name -/

/-- What `[0-9]` matches. -/
def digitRange (c : Char) : Bool := decide ('0' ≤ c) && decide (c ≤ '9') || false

theorem digitRange_eq (c : Char) : digitRange c = c.isDigit := by
  rw [digitRange, Bool.or_false]
  rfl

theorem parse_ranges (fuel n : ℕ) (p : Bre.Reading) (cs : List Char) :
    Bre.parse (fuel + n) false p ((List.replicate n "[0-9]".toList).flatten ++ cs) =
      Bre.parse fuel false (p.chars (List.replicate n digitRange)) cs := by
  induction n generalizing p with
  | zero => rfl
  | succ n ih =>
      rw [List.replicate_succ, List.flatten_cons, List.append_assoc, ← Nat.add_assoc]
      exact (Bre.parse_bracket
        (Bre.bracket_range (by decide) (by decide) (by decide))).trans (ih _)

/-- The characters that the expression of a plain name matches. -/
def kinds (filename : String) : List (Char → Bool) :=
  filename.toList.map (fun c d => d == c) ++
    (fun _ => true) :: List.replicate indexingLength digitRange

theorem compile_dataFilePattern {filename : String} (h : ∀ c ∈ filename.toList, Bre.Plain c) :
    Bre.compile (dataFilePattern filename) =
      some (Bre.chain (.seq .empty .begins) (kinds filename)) := by
  have hlength : (filename.toList ++
      '.' :: (List.replicate indexingLength "[0-9]".toList).flatten).length.succ =
        42 + filename.toList.length := by
    have hranges : ('.' :: (List.replicate indexingLength "[0-9]".toList).flatten).length = 41 :=
      rfl
    rw [List.length_append, hranges]
    omega
  have hranges := parse_ranges 33 indexingLength ((((Bre.Reading.start 0).anchor .begins).chars
    (filename.toList.map fun c d => d == c)).push (.one fun _ => true)) []
  rw [List.append_nil] at hranges
  apply Bre.compile_begins
  rw [hlength, Bre.parse_chars h rfl rfl]
  refine Bre.parse_dot.trans (hranges.trans ?_)
  rw [kinds, Bre.Reading.chars, Bre.Reading.chars, Bre.Reading.chars, List.foldl_append,
    List.foldl_cons]

/-- Characters of these kinds are the name, any character and eight digits. -/
theorem forall₂_kinds_iff (filename : String) (w : List Char) :
    List.Forall₂ (fun f c => f c = true) (kinds filename) w ↔
      ∃ c digits, w = filename.toList ++ c :: digits ∧ digits.length = indexingLength ∧
        ∀ d ∈ digits, d.isDigit = true := by
  rw [kinds, Bre.forall₂_word_append_iff]
  constructor
  · rintro ⟨v, rfl, hv⟩
    obtain ⟨c, digits, -, hdigits, rfl⟩ := List.forall₂_cons_left_iff.mp hv
    obtain ⟨hlength, hall⟩ := Bre.forall₂_replicate_iff.mp hdigits
    exact ⟨c, digits, rfl, hlength, fun d hd => digitRange_eq d ▸ hall d hd⟩
  · rintro ⟨c, digits, rfl, hlength, hall⟩
    exact ⟨c :: digits, rfl, .cons rfl (Bre.forall₂_replicate_iff.mpr
      ⟨hlength, fun d hd => (digitRange_eq d).trans (hall d hd)⟩)⟩

/-- **The expression of a plain name** matches what starts like a data file. -/
theorem regexMatches_of_plain {filename : String} (h : ∀ c ∈ filename.toList, Bre.Plain c)
    (entry : List Char) : regexMatches filename entry ↔ LooksLikeFile filename entry := by
  rw [regexMatches, compile_dataFilePattern h]
  show Bre.search _ entry = true ↔ _
  rw [Bre.search_chain_iff]
  constructor
  · rintro ⟨w, rest, rfl, hw⟩
    obtain ⟨c, digits, rfl, hlength, hdigits⟩ := (forall₂_kinds_iff filename w).mp hw
    exact ⟨c, digits, rest, by simp, hlength, hdigits⟩
  · rintro ⟨c, digits, rest, rfl, hlength, hdigits⟩
    exact ⟨filename.toList ++ c :: digits, rest, by simp,
      (forall₂_kinds_iff filename _).mpr ⟨c, digits, rfl, hlength, hdigits⟩⟩

/-- For such a name the expression matches what it matches in the search. -/
theorem matchesDataFile_iff (filename : String) (entry : List Char) :
    matchesDataFile filename entry ↔ LooksLikeFile filename entry := by
  unfold matchesDataFile
  simp only [Bool.and_eq_true, List.isPrefixOf_iff_prefix, decide_eq_true_eq, List.all_eq_true]
  constructor
  · rintro ⟨⟨⟨behind, rfl⟩, hlength⟩, hall⟩
    rw [List.drop_left] at hlength hall
    cases behind with
    | nil => cases hlength
    | cons c behind =>
        rw [List.drop_one, List.tail_cons] at hall
        refine ⟨c, behind.take indexingLength, behind.drop indexingLength, ?_, ?_, hall⟩
        · rw [List.take_append_drop]
        · rw [List.length_take]
          exact Nat.min_eq_left (Nat.le_of_lt_succ hlength)
  · rintro ⟨c, digits, rest, rfl, hlength, hall⟩
    rw [List.drop_left, List.drop_one, List.tail_cons, ← hlength, List.take_left]
    refine ⟨⟨⟨c :: (digits ++ rest), rfl⟩, ?_⟩, hall⟩
    rw [List.length_cons, List.length_append]
    omega

/-- So the search of `common_check_files` is that of its model. -/
theorem regexMatches_eq_matchesDataFile {filename : String}
    (h : ∀ c ∈ filename.toList, Bre.Plain c) (entry : List Char) :
    regexMatches filename entry = matchesDataFile filename entry := by
  rw [Bool.eq_iff_iff, regexMatches_of_plain h, matchesDataFile_iff]

-- a name with a star in it does not match itself
example : regexMatches "a*b" (dataFileName "a*b" 0) = false := by decide

/-! ## What is read back -/

/-- The name of a data file says its number. -/
theorem eq_of_dataFileName_eq {filename : String} {k l : ℕ}
    (h : dataFileName filename k = dataFileName filename l) : k = l := by
  rw [dataFileName_eq, dataFileName_eq] at h
  obtain ⟨-, hdigits⟩ := List.cons.inj (List.append_cancel_left h)
  rw [← ofDigitChars_fileDigits k, hdigits, ofDigitChars_fileDigits]

/-- A data file is recognised if its number has eight digits and the expression finds it. -/
theorem recognised_dataFileName_iff (filename : String) (k : ℕ) :
    recognised filename (dataFileName filename k) = some (k : ℤ) ↔
      k < 10 ^ indexingLength ∧ regexMatches filename (dataFileName filename k) := by
  unfold recognised
  rw [readIndex_dataFileName]
  constructor
  · intro h
    split at h
    next hmatch =>
      have hmod : k % 10 ^ indexingLength = k := Int.ofNat.inj (Option.some.inj h)
      exact ⟨hmod ▸ Nat.mod_lt k (Nat.pow_pos (by decide)), hmatch⟩
    · cases h
  · rintro ⟨hk, hmatch⟩
    rw [if_pos hmatch, Nat.mod_eq_of_lt hk]

/-- An entry is not counted if the expression does not find it or its number is no file's. -/
theorem counted_eq_none_iff (filename : String) (nFiles : ℕ) (entry : List Char) :
    counted filename nFiles entry = none ↔
      (regexMatches filename entry → nFiles ≤ unsignedLong (readIndex entry)) := by
  unfold counted recognised
  split
  next hmatch => simp [hmatch]
  next hmatch => simp [hmatch]

/-- **What is read back as it was written.** -/
theorem readBack_iff_unmistakable (filename : String) (nFiles : ℕ) (entry : List Char) :
    ReadBack filename nFiles entry ↔ Unmistakable filename nFiles entry := by
  by_cases hfile : ∃ k, entry = dataFileName filename k
  · obtain ⟨k, rfl⟩ := hfile
    constructor
    · intro h
      obtain ⟨hk, hmatch⟩ := (recognised_dataFileName_iff filename k).mp (h.own k rfl)
      exact .inl ⟨k, hk, rfl, hmatch⟩
    · rintro (⟨l, hl, heq, hmatch⟩ | ⟨hno, -⟩)
      · obtain rfl := eq_of_dataFileName_eq heq
        refine ⟨fun m hm => ?_, fun hno => absurd rfl (hno k)⟩
        obtain rfl := eq_of_dataFileName_eq hm
        exact (recognised_dataFileName_iff filename k).mpr ⟨hl, hmatch⟩
      · exact absurd rfl (hno k)
  · have hno : ∀ k, entry ≠ dataFileName filename k := fun k hk => hfile ⟨k, hk⟩
    constructor
    · intro h
      exact .inr ⟨hno, (counted_eq_none_iff filename nFiles entry).mp (h.other hno)⟩
    · rintro (⟨k, -, hk, -⟩ | ⟨-, hnot⟩)
      · exact absurd hk (hno k)
      · exact ⟨fun k hk => absurd hk (hno k),
          fun _ => (counted_eq_none_iff filename nFiles entry).mpr hnot⟩

/-- The entries of every directory that are read back, and the expression of a plain name. -/
theorem readBack_iff (filename : String) (nFiles : ℕ) (entry : List Char) :
    (ReadBack filename nFiles entry ↔ Unmistakable filename nFiles entry) ∧
      ((∀ c ∈ filename.toList, Bre.Plain c) →
        (regexMatches filename entry ↔ LooksLikeFile filename entry)) :=
  ⟨readBack_iff_unmistakable filename nFiles entry,
    fun hplain => regexMatches_of_plain hplain entry⟩

/-- What is behind the dot of a data file are digits. -/
theorem isDigit_of_dataFileName {filename : String} {k : ℕ} {c : Char}
    (h : c ∈ (dataFileName filename k).drop (filename.toList.length + 1)) : c.isDigit = true := by
  rw [dataFileName_eq, ← List.drop_drop, List.drop_left, List.drop_one, List.tail_cons] at h
  exact isDigit_of_mem_fileDigits h

/-- A copy of a data file is counted as a data file. -/
theorem copy_not_readBack : ¬ ∀ (filename : String) (nFiles : ℕ) (entry : List Char),
    ReadBack filename nFiles entry := by
  intro hall
  have hno : ∀ k, "rec.00000000.bak".toList ≠ dataFileName "rec" k := by
    intro k hk
    have hdigit : 'k'.isDigit = true := by
      have hmem : 'k' ∈ (dataFileName "rec" k).drop ("rec".toList.length + 1) := by
        rw [← hk]
        decide
      exact isDigit_of_dataFileName hmem
    exact absurd hdigit (by decide)
  have hcounted := (hall "rec" 1 "rec.00000000.bak".toList).other hno
  exact absurd hcounted (by decide)

end VlbiStreamer.Sender
