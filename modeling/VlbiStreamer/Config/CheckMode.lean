import Mathlib.Data.List.TakeWhile
import VlbiStreamer.Config.Options

/-!
# The check of a configuration

With `check == 1`, `set_from_root` should only compare the settings of a group with the
options: 0 says that they are equal and -1 that they are not.  `init_cfg` runs this check
on the second and all further configuration files of a recording.

`Checks` states what is wanted.  The code does it for the families of the integers and
of the strings, and misses it in five places:

* a boolean is refused when it is equal, and passes when it differs;
* `filesize` is refused also when it is equal;
* `record` with a value other than 0 and 1 passes on a recorder;
* `filesizemb` and `starting_time` have no branch for the check and are read;
* a string that is `NULL` is given to `strcmp`.

A `logfile` that cannot be opened is refused as well, although nothing is compared.
`checks_iff` says that there is nothing else.
-/

namespace VlbiStreamer.Config

/-! ## What should be compared -/

/-- What the options hold for a key, when it is one that can be compared. -/
def Key.held : Key → Opt → Option Value
  | uint64 f, opt => some (.int64 (f.get opt))
  | int f, opt => some (.int (f.get opt))
  | str f, opt => some (.string (f.get opt))
  | boolean flag, opt => some (.int (if opt.has flag then 1 else 0))
  | record, opt => some (.int (if opt.has readmode then 0 else 1))
  | _, _ => none

/-- What the options hold under a name.  `filesizemb`, `starting_time` and the three names
of patterns of bits are never compared. -/
def held (opt : Opt) (name : String) : Option Value :=
  if name = "filesize" then some (.int64 opt.bufferBytes)
  else (keys.lookup name).bind (·.held opt)

/-- Every comparable setting equals what the options hold. -/
def AllEqual (opt : Opt) (root : List Setting) : Prop :=
  ∀ s ∈ root, ∀ v, held opt s.name = some v → s.value = v

/-- The check does what it is for: it returns, the options are as before, and the result
tells whether all that can be compared is equal. -/
def Checks (logToFile : String → Bool) (opt : Opt) (root : List Setting) : Prop :=
  ∃ ret, setFromRoot logToFile .checking opt root = .returned ret opt root ∧
    (ret = 0 ∧ AllEqual opt root ∨ ret = -1 ∧ ¬ AllEqual opt root)

/-! ## What the check does with one setting -/

/-- A setting that can be compared, and differs. -/
def differs (opt : Opt) (s : Setting) : Bool :=
  (held opt s.name).any (s.value ≠ ·)

/-- The keys that let a setting pass when it differs. -/
def Key.overlooks : Key → Opt → Value → Bool
  | boolean _, _, _ => true
  | record, opt, v => !opt.has readmode && v ≠ .int 0
  | _, _, _ => false

/-- The keys that refuse a setting when it is equal. -/
def Key.falseAlarm : Key → Bool
  | boolean _ => true
  | _ => false

/-- A setting that differs and passes. -/
def overlooked (opt : Opt) (s : Setting) : Bool :=
  differs opt s && (keys.lookup s.name).any (·.overlooks opt s.value)

/-- A log file that cannot be opened. -/
def unopened (logToFile : String → Bool) (s : Setting) : Bool :=
  s.name = "logfile" &&
    match s.value with
    | .string (some path) => !logToFile path
    | _ => true

/-- A setting that does not differ and is refused. -/
def falseAlarm (logToFile : String → Bool) (opt : Opt) (s : Setting) : Bool :=
  !differs opt s &&
    (unopened logToFile s || s.name = "filesize" || (keys.lookup s.name).any (·.falseAlarm))

/-- A string to compare, one side of which is `NULL`. -/
def Key.nullString : Key → Opt → Value → Bool
  | str f, opt, .string v => v.isNone || (f.get opt).isNone
  | _, _, _ => false

/-- The check of this setting runs into a `NULL`. -/
def nullString (opt : Opt) (s : Setting) : Bool :=
  (keys.lookup s.name).any (·.nullString opt s.value)

/-- The check returns -1 at this setting. -/
def refused (logToFile : String → Bool) (opt : Opt) (s : Setting) : Bool :=
  !nullString opt s &&
    (!s.wellTyped || differs opt s && !overlooked opt s || falseAlarm logToFile opt s)

/-- What the keys without a check leave in the options. -/
def Key.stored : Key → Opt → Value → Opt
  | filesizemb, opt, .int v => { opt with filesize := Opt.long v * meg }
  | startingTime, opt, .int64 v => { opt with startingTime := v }
  | _, opt, _ => opt

/-- The options after a setting that passes the check. -/
def stored (opt : Opt) (s : Setting) : Opt :=
  match keys.lookup s.name with
  | some key => key.stored opt s.value
  | none => opt

/-- The settings that the check goes through before it returns. -/
def passed (logToFile : String → Bool) (opt : Opt) (root : List Setting) : List Setting :=
  root.takeWhile fun s => !refused logToFile opt s

/-- When the check does what it is for: it meets no `NULL`, what it stores is what the
options held, and a difference that is overlooked goes with one that is seen, or with a
false alarm, and no false alarm is without one. -/
structure Checkable (logToFile : String → Bool) (opt : Opt) (root : List Setting) : Prop where
  strings : ∀ s ∈ passed logToFile opt root, nullString opt s = false
  unchanged : (passed logToFile opt root).foldl stored opt = opt
  noticed : (∃ s ∈ root, differs opt s ∧ ¬ overlooked opt s) ∨
    ((∃ s ∈ root, falseAlarm logToFile opt s) ↔ ∃ s ∈ root, overlooked opt s)

/-! ## One setting -/

/-- The check of an integer. -/
theorem cfgFullInt_checking (f : Field (BitVec 32)) (opt : Opt) (v : BitVec 32) :
    cfgFullInt f .checking opt (.int v) =
      if v ≠ f.get opt then .fail opt else .next opt (.int v) := rfl

/-- The check of a 64-bit value. -/
theorem cfgFullUint64_checking (f : Field (BitVec 64)) (opt : Opt) (v : BitVec 64) :
    cfgFullUint64 f .checking opt (.int64 v) =
      if v ≠ f.get opt then .fail opt else .next opt (.int64 v) := rfl

/-- The check of a string. -/
theorem cfgFullStr_checking (f : Field (Option String)) (opt : Opt) (v : Option String) :
    cfgFullStr f .checking opt (.string v) =
      if v.isNone || (f.get opt).isNone then .crash .nullString
      else if v ≠ f.get opt then .fail opt else .next opt (.string v) := by
  cases v with
  | none => rfl
  | some s =>
    cases hf : f.get opt with
    | none => simp [cfgFullStr, Mode.checking, hf]
    | some t => simp [cfgFullStr, Mode.checking, hf]

/-- The check of a boolean refuses the value that the bit stands for, and no other. -/
theorem cfgFullBoolean_checking (flag : BitVec 64) (opt : Opt) (v : BitVec 32) :
    cfgFullBoolean flag .checking opt (.int v) =
      if v = (if opt.has flag then 1 else 0) then .fail opt else .next opt (.int v) := by
  cases hf : opt.has flag <;> simp [cfgFullBoolean, Mode.checking, hf]

/-- The check of `record` takes every value but 0 for a recorder. -/
theorem record_checking (opt : Opt) (v : BitVec 32) :
    record .checking opt (.int v) =
      if (v ≠ 0) = opt.has readmode then .fail opt else .next opt (.int v) := by
  by_cases hv : v = 0 <;> cases hr : opt.has readmode <;> simp [record, Mode.checking, hv, hr]

/-- A key refuses a difference that it does not overlook, and raises its false alarms. -/
def Key.refuses (key : Key) (opt : Opt) (v : Value) : Bool :=
  (key.held opt).any (v ≠ ·) && !key.overlooks opt v ||
    !(key.held opt).any (v ≠ ·) && key.falseAlarm

/-- The check of a key, for a value of its type. -/
theorem Key.handle_checking (key : Key) (opt : Opt) (v : Value) (h : v.type = key.type) :
    key.handle .checking opt v =
      if key.nullString opt v then .crash .nullString
      else if key.refuses opt v then .fail opt
      else .next (key.stored opt v) v := by
  cases key with
  | uint64 f =>
    obtain ⟨v, rfl⟩ := Value.exists_int64_of_type h
    simp [handle, cfgFullUint64_checking, nullString, refuses, held, overlooks, falseAlarm, stored]
  | int f =>
    obtain ⟨v, rfl⟩ := Value.exists_int_of_type h
    simp [handle, cfgFullInt_checking, nullString, refuses, held, overlooks, falseAlarm, stored]
  | str f =>
    obtain ⟨v, rfl⟩ := Value.exists_string_of_type h
    simp [handle, cfgFullStr_checking, nullString, refuses, held, overlooks, falseAlarm, stored]
  | boolean flag =>
    obtain ⟨v, rfl⟩ := Value.exists_int_of_type h
    simp [handle, cfgFullBoolean_checking, nullString, refuses, held, overlooks, falseAlarm,
      stored]
  | record =>
    obtain ⟨v, rfl⟩ := Value.exists_int_of_type h
    by_cases hv : v = 0#32 <;> cases hr : opt.has readmode <;>
      simp [handle, record_checking, nullString, refuses, held, overlooks, falseAlarm, stored,
        hv, hr]
  | filesizemb =>
    obtain ⟨v, rfl⟩ := Value.exists_int_of_type h
    rfl
  | startingTime =>
    obtain ⟨v, rfl⟩ := Value.exists_int64_of_type h
    rfl
  | writer | capture | datatype =>
    obtain ⟨v, rfl⟩ := Value.exists_string_of_type h
    rfl

/-- The names of the first chain are not among the keys. -/
@[simp]
theorem lookup_logfile : keys.lookup "logfile" = none := by decide

@[simp]
theorem lookup_filesize : keys.lookup "filesize" = none := by decide

/-- Only a string runs into a `NULL`. -/
theorem wellTyped_of_nullString {opt : Opt} {s : Setting} (h : nullString opt s) :
    s.wellTyped := by
  obtain ⟨name, v⟩ := s
  by_cases hlog : name = "logfile"
  · subst hlog
    simp [nullString] at h
  by_cases hsize : name = "filesize"
  · subst hsize
    simp [nullString] at h
  cases hkey : keys.lookup name with
  | none => simp [nullString, hkey] at h
  | some key =>
    have hnull : key.nullString opt v := by simpa [nullString, hkey] using h
    have htype : v.type = key.type := by
      cases key <;> cases v <;> first | rfl | exact nomatch hnull
    simpa [Setting.wellTyped, hlog, hsize, hkey] using htype

/-- **The check of a setting.**  It runs into a `NULL`, it refuses the setting, or it goes
on with what it stored. -/
theorem handle_checking (logToFile : String → Bool) (opt : Opt) (s : Setting) :
    handle logToFile .checking opt s =
      if nullString opt s then .crash .nullString
      else if refused logToFile opt s then .fail opt
      else .next (stored opt s) s.value := by
  cases h : s.wellTyped with
  | false =>
    have hnull : nullString opt s = false := by
      cases hn : nullString opt s with
      | false => rfl
      | true => exact absurd (wellTyped_of_nullString hn) (by simp [h])
    simp [handle_of_not_wellTyped logToFile h, hnull, refused, h]
  | true =>
  obtain ⟨name, v⟩ := s
  by_cases hlog : name = "logfile"
  · subst hlog
    obtain ⟨v, rfl⟩ := Value.exists_string_of_type (v := v) (by simpa [Setting.wellTyped] using h)
    cases v with
    | none => simp [handle, logfile, nullString, refused, differs, held, falseAlarm, unopened, h]
    | some path =>
      cases ho : logToFile path <;>
        simp [handle, logfile, nullString, refused, differs, held, falseAlarm, unopened, ho,
          stored, h]
  by_cases hsize : name = "filesize"
  · subst hsize
    obtain ⟨v, rfl⟩ := Value.exists_int64_of_type (v := v) (by simpa [Setting.wellTyped] using h)
    cases hd : differs opt ⟨"filesize", .int64 v⟩ <;>
      simp [handle, filesize, Mode.checking, nullString, refused, falseAlarm, overlooked, hd, h]
  cases hkey : keys.lookup name with
  | none =>
    simp [handle, handleKey, hlog, hsize, hkey, nullString, refused, differs, held, falseAlarm,
      unopened, stored, h]
  | some key =>
    have hv : v.type = key.type := by simpa [Setting.wellTyped, hlog, hsize, hkey] using h
    have hnull : nullString opt ⟨name, v⟩ = key.nullString opt v := by simp [nullString, hkey]
    have hstored : stored opt ⟨name, v⟩ = key.stored opt v := by simp [stored, hkey]
    have hdiffers : differs opt ⟨name, v⟩ = (key.held opt).any (v ≠ ·) := by
      simp [differs, held, hsize, hkey]
    have hrefused : refused logToFile opt ⟨name, v⟩ =
        (!key.nullString opt v && key.refuses opt v) := by
      rw [refused, h, hnull, Key.refuses, overlooked, falseAlarm, hdiffers]
      cases (key.held opt).any (v ≠ ·) <;> simp [hkey, hsize, unopened, hlog]
    have hhandle : handle logToFile .checking opt ⟨name, v⟩ = key.handle .checking opt v := by
      simp [handle, handleKey, hlog, hsize, hkey]
    rw [hhandle, key.handle_checking opt v hv, hnull, hrefused, hstored]
    cases key.nullString opt v <;> simp

/-! ## What no check reads -/

/-- Options that differ in what the check can store. -/
def Opt.Alike (opt opt' : Opt) : Prop :=
  ∃ filesize startingTime, opt' = { opt with filesize, startingTime }

theorem mem_of_lookup {name : String} {key : Key} (h : keys.lookup name = some key) :
    (name, key) ∈ keys := by
  obtain ⟨before, after, heq, -⟩ := List.lookup_eq_some_iff.mp h
  rw [heq]
  exact List.mem_append_right before List.mem_cons_self

/-- No key reads what the check can store. -/
theorem held_of_mem_keys : ∀ p ∈ keys, ∀ opt opt' : Opt, opt.Alike opt' →
    p.2.held opt' = p.2.held opt := by
  rintro p hp opt _ ⟨filesize, startingTime, rfl⟩
  revert p
  simp [keys, Key.held, Opt.has, packetSizeField]

namespace Opt.Alike

variable {opt opt' : Opt}

theorem refl (opt : Opt) : opt.Alike opt := ⟨opt.filesize, opt.startingTime, rfl⟩

/-- The check stores nothing else. -/
theorem stored (h : opt.Alike opt') (s : Setting) : opt.Alike (stored opt' s) := by
  obtain ⟨filesize, startingTime, rfl⟩ := h
  rw [Config.stored]
  split
  · rename_i key _
    unfold Key.stored
    split
    · exact ⟨_, startingTime, rfl⟩
    · exact ⟨filesize, _, rfl⟩
    · exact ⟨filesize, startingTime, rfl⟩
  · exact ⟨filesize, startingTime, rfl⟩

theorem foldl_stored (h : opt.Alike opt') (root : List Setting) :
    opt.Alike (root.foldl Config.stored opt') := by
  induction root generalizing opt' with
  | nil => exact h
  | cons s rest ih => exact ih (h.stored s)

theorem nDrives_eq (h : opt.Alike opt') : opt'.nDrives = opt.nDrives := by
  obtain ⟨_, _, rfl⟩ := h
  rfl

theorem filename_eq (h : opt.Alike opt') : opt'.filename = opt.filename := by
  obtain ⟨_, _, rfl⟩ := h
  rfl

theorem offsetOnwrite_eq (h : opt.Alike opt') : opt'.offsetOnwrite = opt.offsetOnwrite := by
  obtain ⟨_, _, rfl⟩ := h
  rfl

theorem has_eq (h : opt.Alike opt') (flag : BitVec 64) : opt'.has flag = opt.has flag := by
  obtain ⟨_, _, rfl⟩ := h
  rfl

theorem held_eq (h : opt.Alike opt') (name : String) : held opt' name = held opt name := by
  unfold held
  split
  · obtain ⟨_, _, rfl⟩ := h
    rfl
  · cases hkey : keys.lookup name with
    | none => rfl
    | some key => exact held_of_mem_keys _ (mem_of_lookup hkey) _ _ h

theorem differs_eq (h : opt.Alike opt') (s : Setting) : differs opt' s = differs opt s := by
  rw [differs, differs, h.held_eq]

theorem overlooked_eq (h : opt.Alike opt') (s : Setting) :
    overlooked opt' s = overlooked opt s := by
  have hkeys : ∀ key : Key, key.overlooks opt' s.value = key.overlooks opt s.value := by
    intro key
    cases key <;> simp [Key.overlooks, h.has_eq]
  simp only [overlooked, h.differs_eq, hkeys]

theorem nullString_eq (h : opt.Alike opt') (s : Setting) :
    nullString opt' s = nullString opt s := by
  unfold nullString
  cases hkey : keys.lookup s.name with
  | none => rfl
  | some key =>
    have hheld := held_of_mem_keys _ (mem_of_lookup hkey) _ _ h
    cases key with
    | str f =>
      have hf : f.get opt' = f.get opt := by simpa [Key.held] using hheld
      cases s.value <;> simp [Key.nullString, hf]
    | _ => rfl

theorem refused_eq (h : opt.Alike opt') (logToFile : String → Bool) (s : Setting) :
    refused logToFile opt' s = refused logToFile opt s := by
  simp only [refused, falseAlarm, h.nullString_eq, h.differs_eq, h.overlooked_eq]

end Opt.Alike

/-! ## The check of a group -/

section Check

variable {logToFile : String → Bool} {opt : Opt} {root : List Setting}

/-- **The loop.**  It ends at the first setting that is refused, unless it meets a `NULL`
before. -/
theorem settingsLoop_checking {opt' : Opt} (h : opt.Alike opt') :
    settingsLoop logToFile .checking opt' none root =
      if (passed logToFile opt root).any (nullString opt) then .crashed .nullString
      else if root.any (refused logToFile opt) then
        .failed ((passed logToFile opt root).foldl stored opt')
      else .finished ((passed logToFile opt root).foldl stored opt') none root := by
  induction root generalizing opt' with
  | nil => simp [settingsLoop, passed]
  | cons s rest ih =>
    have hread : filesizeRead .checking s none = none := by
      unfold filesizeRead
      split <;> simp [Mode.checking, Mode.read]
    rw [settingsLoop, handle_checking logToFile opt' s, h.nullString_eq, h.refused_eq]
    cases hnull : nullString opt s with
    | true => simp [passed, refused, hnull]
    | false =>
      cases hrefused : refused logToFile opt s with
      | true => simp [passed, hrefused]
      | false =>
        have hpassed : passed logToFile opt (s :: rest) = s :: passed logToFile opt rest := by
          simp [passed, hrefused]
        have hrest := ih (h.stored s)
        simp only [Bool.false_eq_true, if_false, hread, hrest, hpassed, List.any_cons, hnull,
          hrefused, Bool.false_or, List.foldl_cons]
        cases (passed logToFile opt rest).any (nullString opt) with
        | true => simp
        | false => cases rest.any (refused logToFile opt) <;> simp

/-- **The whole check**, as a function of the settings it passes. -/
theorem setFromRoot_checking {opt' : Opt} (h : opt.Alike opt') :
    setFromRoot logToFile .checking opt' root =
      if (passed logToFile opt root).any (nullString opt) then .crashed .nullString
      else .returned (if root.any (refused logToFile opt) then -1 else 0)
        ((passed logToFile opt root).foldl stored opt') root := by
  rw [setFromRoot, settingsLoop_checking h]
  cases (passed logToFile opt root).any (nullString opt) with
  | true => simp
  | false => cases root.any (refused logToFile opt) <;> simp

/-- The settings are all equal exactly when none of them differs. -/
theorem allEqual_iff : AllEqual opt root ↔ ¬ ∃ s ∈ root, differs opt s := by
  have hs : ∀ s : Setting, (∀ v, held opt s.name = some v → s.value = v) ↔ ¬ differs opt s := by
    intro s
    unfold differs
    cases held opt s.name <;> simp
  simp only [AllEqual, hs, not_exists, not_and]

/-- A setting differs visibly or is overlooked. -/
theorem exists_differs_iff : (∃ s ∈ root, differs opt s) ↔
    (∃ s ∈ root, differs opt s ∧ ¬ overlooked opt s) ∨ ∃ s ∈ root, overlooked opt s := by
  constructor
  · rintro ⟨s, hs, hd⟩
    by_cases ho : overlooked opt s
    · exact .inr ⟨s, hs, ho⟩
    · exact .inl ⟨s, hs, hd, ho⟩
  · rintro (⟨s, hs, hd, -⟩ | ⟨s, hs, ho⟩)
    · exact ⟨s, hs, hd⟩
    · exact ⟨s, hs, by simp_all [overlooked]⟩

/-- A setting is refused as a visible difference or by a false alarm; the first of them that
is refused stands behind no `NULL`. -/
theorem exists_refused_iff (hwt : ∀ s ∈ root, s.wellTyped)
    (hnull : ∀ s ∈ passed logToFile opt root, nullString opt s = false) :
    (∃ s ∈ root, refused logToFile opt s) ↔
      (∃ s ∈ root, differs opt s ∧ ¬ overlooked opt s) ∨
        ∃ s ∈ root, falseAlarm logToFile opt s := by
  have hiff : ∀ s ∈ root, nullString opt s = false →
      (refused logToFile opt s ↔
        differs opt s ∧ ¬ overlooked opt s ∨ falseAlarm logToFile opt s) := by
    intro s hs hn
    simp [refused, hn, hwt s hs]
  constructor
  · rintro ⟨s, hs, hr⟩
    have hs' : nullString opt s = false := by simp_all [refused]
    obtain hd | hf := (hiff s hs hs').mp hr
    · exact .inl ⟨s, hs, hd⟩
    · exact .inr ⟨s, hs, hf⟩
  · intro h
    by_contra hnone
    have hall : passed logToFile opt root = root :=
      List.takeWhile_eq_self_iff.mpr fun s hs => by
        simpa using fun hr => hnone ⟨s, hs, hr⟩
    rw [hall] at hnull
    obtain ⟨s, hs, hd⟩ | ⟨s, hs, hf⟩ := h
    · exact hnone ⟨s, hs, (hiff s hs (hnull s hs)).mpr (.inl hd)⟩
    · exact hnone ⟨s, hs, (hiff s hs (hnull s hs)).mpr (.inr hf)⟩

end Check

/-- Two verdicts that share what is seen agree when something is seen, or when their other
grounds do. -/
theorem same_verdict_iff {refused seen alarm missed : Prop} (h : refused ↔ seen ∨ alarm) :
    (refused ↔ seen ∨ missed) ↔ seen ∨ (alarm ↔ missed) := by
  by_cases hseen : seen <;> simp [h, hseen]

/-- **When the check is right.**  It meets no `NULL` and stores nothing new before it ends,
and its false alarms and oversights cancel or stand beside a difference that it sees. -/
theorem checks_iff (logToFile : String → Bool) (opt : Opt) (root : List Setting)
    (hwt : ∀ s ∈ root, s.wellTyped) :
    Checks logToFile opt root ↔ Checkable logToFile opt root := by
  rw [Checks, setFromRoot_checking (Opt.Alike.refl opt)]
  cases hany : (passed logToFile opt root).any (nullString opt) with
  | true =>
    -- the string function is reached, and nothing is returned
    obtain ⟨s, hs, hnull⟩ := List.any_eq_true.mp hany
    constructor
    · rintro ⟨ret, heq, -⟩
      exact nomatch heq
    · intro h
      exact absurd hnull (by simp [h.strings s hs])
  | false =>
    have hnull : ∀ s ∈ passed logToFile opt root, nullString opt s = false := by
      simpa using hany
    have hverdict : (root.any (refused logToFile opt) ↔ ¬ AllEqual opt root) ↔
        (∃ s ∈ root, differs opt s ∧ ¬ overlooked opt s) ∨
          ((∃ s ∈ root, falseAlarm logToFile opt s) ↔ ∃ s ∈ root, overlooked opt s) := by
      rw [List.any_eq_true, allEqual_iff, not_not, exists_differs_iff]
      exact same_verdict_iff (exists_refused_iff hwt hnull)
    have hret : ∀ ret : ℤ, ret = (if root.any (refused logToFile opt) then -1 else 0) →
        ((ret = 0 ∧ AllEqual opt root ∨ ret = -1 ∧ ¬ AllEqual opt root) ↔
          (root.any (refused logToFile opt) ↔ ¬ AllEqual opt root)) := by
      rintro ret rfl
      cases root.any (refused logToFile opt) <;> by_cases ha : AllEqual opt root <;> simp [ha]
    constructor
    · rintro ⟨ret, heq, h⟩
      injection heq with heq hopt
      exact ⟨hnull, hopt, hverdict.mp ((hret ret heq.symm).mp h)⟩
    · rintro ⟨-, hopt, hnoticed⟩
      exact ⟨_, by rw [hopt]; rfl, (hret _ rfl).mpr (hverdict.mpr hnoticed)⟩

/-- Two settings that are equal to the options, and an unknown one. -/
theorem checks_equal_settings :
    Checks (fun _ => true) clearAndDefault
      [⟨"port", .int 2222⟩, ⟨"packet_size", .int64 8192⟩, ⟨"comment", .other⟩] :=
  (checks_iff _ _ _ (by decide)).mpr ⟨by decide, by decide, .inr (by decide)⟩

/-- A boolean that equals its bit is refused. -/
theorem equal_boolean_refused :
    ¬ ∀ (logToFile : String → Bool) (opt : Opt) (root : List Setting),
      (∀ s ∈ root, s.wellTyped) → Checks logToFile opt root := by
  intro h
  obtain ⟨ret, heq, hret⟩ := h (fun _ => true) (clearAndDefault.setBits verbose)
    [⟨"verbose", .int 1⟩] (by decide)
  have hequal : AllEqual (clearAndDefault.setBits verbose) [⟨"verbose", .int 1⟩] :=
    allEqual_iff.mpr (by decide)
  have hrefused : setFromRoot (fun _ => true) .checking (clearAndDefault.setBits verbose)
      [⟨"verbose", .int 1⟩] =
        .returned (-1) (clearAndDefault.setBits verbose) [⟨"verbose", .int 1⟩] := rfl
  rw [hrefused] at heq
  injection heq with heq
  subst heq
  obtain ⟨hzero, -⟩ | ⟨-, hdiffer⟩ := hret
  · exact absurd hzero (by decide)
  · exact hdiffer hequal

/-! ## A check of what was written -/

/-- Writing leaves the options, and puts what they hold under a key that is compared. -/
theorem Key.handle_writing (key : Key) (opt : Opt) (v : Value) (h : v.type = key.type) :
    key.handle .writing opt v = .fail opt ∨
      ∃ w, key.handle .writing opt v = .next opt w ∧ w.type = key.type ∧
        ∀ u, key.held opt = some u → w = u := by
  cases key with
  | uint64 f | startingTime =>
    obtain ⟨v, rfl⟩ := Value.exists_int64_of_type h
    exact .inr ⟨_, rfl, rfl, by simp [held]⟩
  | int f | boolean flag | record | filesizemb =>
    obtain ⟨v, rfl⟩ := Value.exists_int_of_type h
    exact .inr ⟨_, rfl, rfl, by simp [held]⟩
  | str f =>
    obtain ⟨v, rfl⟩ := Value.exists_string_of_type h
    exact .inr ⟨_, rfl, rfl, by simp [held]⟩
  | writer | capture | datatype =>
    obtain ⟨v, rfl⟩ := Value.exists_string_of_type h
    simp only [handle, Config.writer, Config.capture, Config.datatype, cfgNames, Mode.writing,
      Bool.false_eq_true, if_false, if_true]
    -- a pattern of bits without a name is not written
    split
    · exact .inr ⟨_, rfl, rfl, nofun⟩
    · exact .inl rfl

/-- What is written of a setting. -/
theorem handle_writing (logToFile : String → Bool) (opt : Opt) (s : Setting)
    (h : s.wellTyped) :
    handle logToFile .writing opt s = .fail opt ∨
      ∃ w, handle logToFile .writing opt s = .next opt w ∧
        (⟨s.name, w⟩ : Setting).wellTyped ∧ ∀ u, held opt s.name = some u → w = u := by
  obtain ⟨name, v⟩ := s
  by_cases hlog : name = "logfile"
  · subst hlog
    obtain ⟨v, rfl⟩ := Value.exists_string_of_type (v := v) (by simpa [Setting.wellTyped] using h)
    cases v with
    | none => exact .inl rfl
    | some path =>
      cases ho : logToFile path with
      | true =>
        exact .inr ⟨.string (some path), by simp [handle, logfile, ho], h, by simp [held]⟩
      | false => exact .inl (by simp [handle, logfile, ho])
  by_cases hsize : name = "filesize"
  · subst hsize
    obtain ⟨v, rfl⟩ := Value.exists_int64_of_type (v := v) (by simpa [Setting.wellTyped] using h)
    exact .inr ⟨_, rfl, rfl, by simp [held]⟩
  have hhandle : handle logToFile .writing opt ⟨name, v⟩ = handleKey .writing opt ⟨name, v⟩ := by
    simp [handle, hlog, hsize]
  cases hkey : keys.lookup name with
  | none =>
    exact .inr ⟨v, by simp [hhandle, handleKey, hkey],
      by simp [Setting.wellTyped, hlog, hsize, hkey], by simp [held, hsize, hkey]⟩
  | some key =>
    have hv : v.type = key.type := by simpa [Setting.wellTyped, hlog, hsize, hkey] using h
    obtain hfail | ⟨w, hnext, htype, hheld⟩ := key.handle_writing opt v hv
    · exact .inl (by simpa [hhandle, handleKey, hkey] using hfail)
    · refine .inr ⟨w, by simpa [hhandle, handleKey, hkey] using hnext, ?_, ?_⟩
      · simpa [Setting.wellTyped, hlog, hsize, hkey] using htype
      · simpa [held, hsize, hkey] using hheld

/-- The loop of a write leaves settings that have the right types and are all equal. -/
theorem settingsLoop_writing {logToFile : String → Bool} {opt opt' : Opt}
    {found : Option (BitVec 64)} {root root' : List Setting} (hwt : ∀ s ∈ root, s.wellTyped)
    (h : settingsLoop logToFile .writing opt none root = .finished opt' found root') :
    (∀ s ∈ root', s.wellTyped) ∧ AllEqual opt root' := by
  induction root generalizing root' with
  | nil =>
    injection h with _ _ hroot
    subst hroot
    exact ⟨nofun, nofun⟩
  | cons s rest ih =>
    have hread : filesizeRead .writing s none = none := by
      unfold filesizeRead
      split <;> simp [Mode.writing, Mode.read]
    rw [settingsLoop] at h
    obtain hfail | ⟨w, hnext, htype, hheld⟩ :=
      handle_writing logToFile opt s (hwt s List.mem_cons_self)
    · rw [hfail] at h
      exact nomatch h
    · rw [hnext] at h
      simp only [hread] at h
      split at h
      · rename_i opt₁ found₁ rest₁ hrest
        injection h with hopt hfound hroot
        subst hopt hfound hroot
        obtain ⟨hwt', hequal⟩ := ih (fun t ht => hwt t (List.mem_cons_of_mem s ht)) hrest
        exact ⟨List.forall_mem_cons.mpr ⟨htype, hwt'⟩, List.forall_mem_cons.mpr ⟨hheld, hequal⟩⟩
      · rename_i hnot
        exact absurd h (hnot _ _ _)

/-- **A check of what was written** returns 0 only when the settings have no boolean, no
`filesize` and no `NULL`, and the log files can be opened; the options stay when what is
stored is what they hold. -/
theorem check_written {logToFile : String → Bool} {opt opt' : Opt} {root root' : List Setting}
    (hwt : ∀ s ∈ root, s.wellTyped)
    (h : setFromRoot logToFile .writing opt root = .returned 0 opt' root') :
    setFromRoot logToFile .checking opt root' = .returned 0 opt root' ↔
      (∀ s ∈ root', nullString opt s = false ∧ falseAlarm logToFile opt s = false) ∧
        root'.foldl stored opt = opt := by
  obtain ⟨hwt', hequal⟩ : (∀ s ∈ root', s.wellTyped) ∧ AllEqual opt root' := by
    unfold setFromRoot at h
    cases hloop : settingsLoop logToFile .writing opt none root with
    | crashed reason => simp [hloop] at h
    | failed opt => simp [hloop] at h
    | finished opt₁ found root₁ =>
      have hroot : root₁ = root' := by
        cases found with
        | none => simp_all
        | some filesize =>
          simp only [hloop] at h
          split at h
          · exact nomatch h
          · split at h
            · exact nomatch h
            · injection h
      exact hroot ▸ settingsLoop_writing hwt hloop
  have hdiffers : ∀ s ∈ root', differs opt s = false := by
    simpa using allEqual_iff.mp hequal
  have hrefused : ∀ s ∈ root', refused logToFile opt s =
      (!nullString opt s && falseAlarm logToFile opt s) := by
    intro s hs
    simp [refused, hdiffers s hs, hwt' s hs]
  rw [setFromRoot_checking (Opt.Alike.refl opt)]
  constructor
  · intro hret
    split at hret
    · exact nomatch hret
    rename_i hnull
    injection hret with hret hopt
    have hnone : ∀ s ∈ root', refused logToFile opt s = false := by
      by_contra hsome
      simp_all
    have hall : passed logToFile opt root' = root' :=
      List.takeWhile_eq_self_iff.mpr fun s hs => by simp [hnone s hs]
    rw [hall] at hnull hopt
    refine ⟨fun s hs => ?_, hopt⟩
    have hs' : nullString opt s = false := by simp_all
    exact ⟨hs', by simpa [hrefused s hs, hs'] using hnone s hs⟩
  · rintro ⟨hclean, hopt⟩
    have hnone : ∀ s ∈ root', refused logToFile opt s = false := by
      intro s hs
      simp [hrefused s hs, hclean s hs]
    have hall : passed logToFile opt root' = root' :=
      List.takeWhile_eq_self_iff.mpr fun s hs => by simp [hnone s hs]
    have hnull : root'.any (nullString opt) = false := by simpa using fun s hs => (hclean s hs).1
    have hany : root'.any (refused logToFile opt) = false := by simpa using hnone
    rw [hall, hnull, hany, hopt]
    rfl

end VlbiStreamer.Config
