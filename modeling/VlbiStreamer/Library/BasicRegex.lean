import Mathlib.Data.List.Forall2
import Mathlib.Logic.Function.Basic

/-!
# Basic regular expressions

The expressions that `regcomp` reads without `REG_EXTENDED`, over the characters of the POSIX
locale.  `Bre.compile` reads one from a pattern and `Bre.search` says whether it is found in a
string; where POSIX leaves a choice (`^` and `$` next to the parentheses of a group), it is
that of the GNU library.

`run r p` is every place the match of `r` can come to from the place `p`, so a search with
back-references tries all of them.  Patterns are read from the left: `parse_char` is the step
at an ordinary character, `parse_chars` at a word of them, and `run_chain` what the
expression of a word matches.
-/

namespace VlbiStreamer.Library

/-- A basic regular expression. -/
inductive Bre where
  | empty
  | one (f : Char → Bool)
  | seq (r s : Bre)
  | rep (r : Bre) (lo : ℕ) (hi : Option ℕ)
  | group (n : ℕ) (r : Bre)
  | back (n : ℕ)
  | begins
  | ends

/-- `isspace` -/
def isSpace (c : Char) : Bool := c.isWhitespace || c == '\x0b' || c == '\x0c'

namespace Bre

/-! ## Matching -/

/-- How far a match has come. -/
structure Place where
  /-- Nothing of the string lies before. -/
  atStart : Bool
  rest : List Char
  /-- What the groups matched. -/
  groups : ℕ → Option (List Char)

/-- One step after another. -/
def times (step : Place → List Place) : ℕ → Place → List Place
  | 0, p => [p]
  | n + 1, p => (step p).flatMap (times step n)

/-- The places a match comes to.  More repetitions than there are characters left add
nothing. -/
def run : Bre → Place → List Place
  | .empty, p => [p]
  | .one f, p =>
      match p.rest with
      | [] => []
      | c :: cs => if f c then [{ p with atStart := false, rest := cs }] else []
  | .seq r s, p => (run r p).flatMap (run s)
  | .rep r lo hi, p =>
      (List.range (hi.getD (lo + p.rest.length) + 1 - lo)).flatMap fun n =>
        times (run r) (lo + n) p
  | .group n r, p =>
      (run r p).map fun q =>
        { q with groups := Function.update q.groups n
                  (some (p.rest.take (p.rest.length - q.rest.length))) }
  | .back n, p =>
      match p.groups n with
      | none => []
      | some w =>
          if w.isPrefixOf p.rest then
            [{ p with atStart := p.atStart && w.isEmpty, rest := p.rest.drop w.length }]
          else []
  | .begins, p => if p.atStart then [p] else []
  | .ends, p => if p.rest = [] then [p] else []

/-- The place in front of the character `i` of a string. -/
def Place.of (s : List Char) (i : ℕ) : Place := ⟨decide (i = 0), s.drop i, fun _ => none⟩

/-- `regexec` -/
def search (r : Bre) (s : List Char) : Bool :=
  (List.range (s.length + 1)).any fun i => !(run r (Place.of s i)).isEmpty

/-! ## Reading a pattern -/

/-- What has been read of a pattern or of a group. -/
structure Reading where
  before : Bre
  /-- What a star would repeat. -/
  last : Option Bre
  fresh : Bool
  /-- The groups that were opened. -/
  opened : ℕ

namespace Reading

/-- Nothing was read yet. -/
def start (opened : ℕ) : Reading := ⟨.empty, none, true, opened⟩

def done (p : Reading) : Bre :=
  match p.last with
  | none => p.before
  | some r => .seq p.before r

/-- Something that can be repeated. -/
def push (p : Reading) (r : Bre) : Reading := ⟨p.done, some r, false, p.opened⟩

/-- Something that cannot. -/
def anchor (p : Reading) (r : Bre) : Reading := ⟨.seq p.done r, none, false, p.opened⟩

def repeated (p : Reading) (lo : ℕ) (hi : Option ℕ) : Option Reading :=
  p.last.map fun r => { p with last := some (.rep r lo hi) }

end Reading

/-- The character classes. -/
def charClass (name : List Char) : Option (Char → Bool) :=
  let isPrint := fun c : Char => decide (' ' ≤ c) && decide (c ≤ '~')
  [("alpha", Char.isAlpha), ("digit", Char.isDigit), ("alnum", Char.isAlphanum),
    ("upper", Char.isUpper), ("lower", Char.isLower), ("blank", fun c => c == ' ' || c == '\t'),
    ("space", isSpace), ("print", isPrint),
    ("graph", fun c => isPrint c && c != ' '),
    ("punct", fun c => isPrint c && c != ' ' && !c.isAlphanum),
    ("cntrl", fun c => decide (c < ' ') || c == '\x7f'),
    ("xdigit", fun c =>
      c.isDigit || (decide ('a' ≤ c.toLower) && decide (c.toLower ≤ 'f')))].findSome?
      fun entry => if entry.1.toList = name then some entry.2 else none

/-- One member of a bracket expression. -/
def bracketMember : List Char → Option ((Char → Bool) × List Char)
  | [] => none
  | '[' :: ':' :: cs =>
      let name := cs.takeWhile fun c => c != ':'
      match cs.drop name.length with
      | ':' :: ']' :: rest => (charClass name).map fun f => (f, rest)
      | _ => none
  | '[' :: '.' :: c :: '.' :: ']' :: cs => some ((· == c), cs)
  | '[' :: '=' :: c :: '=' :: ']' :: cs => some ((· == c), cs)
  | '[' :: '.' :: _ => none
  | '[' :: '=' :: _ => none
  | a :: '-' :: ']' :: cs => some ((· == a), '-' :: ']' :: cs)
  | a :: '-' :: b :: cs =>
      if a ≤ b then some (fun c => decide (a ≤ c) && decide (c ≤ b), cs) else none
  | a :: cs => some ((· == a), cs)

/-- The members of a bracket expression and what comes behind it; a closing bracket that
comes first is a member. -/
def bracketMembers : ℕ → Bool → List Char → Option ((Char → Bool) × List Char)
  | 0, _, _ => none
  | fuel + 1, first, cs =>
      if cs.head? = some ']' && !first then some (fun _ => false, cs.tail)
      else
        (bracketMember cs).bind fun (f, cs) =>
          (bracketMembers fuel false cs).map fun (g, cs) => (fun c => f c || g c, cs)

/-- A bracket expression, behind its opening bracket. -/
def bracket : List Char → Option ((Char → Bool) × List Char)
  | '^' :: cs => (bracketMembers (cs.length + 1) true cs).map fun (f, cs) => (fun c => !f c, cs)
  | cs => bracketMembers (cs.length + 1) true cs

/-- The decimal number that comes next. -/
def number (cs : List Char) : Option ℕ × List Char :=
  let digits := cs.takeWhile Char.isDigit
  (if digits = [] then none else some (Nat.ofDigitChars 10 digits 0), cs.drop digits.length)

/-- The bounds of an interval, behind its opening brace. -/
def interval (cs : List Char) : Option (ℕ × Option ℕ × List Char) :=
  match number cs with
  | (some lo, '\\' :: '\x7d' :: rest) => some (lo, some lo, rest)
  | (some lo, ',' :: cs) =>
      match number cs with
      | (none, '\\' :: '\x7d' :: rest) => some (lo, none, rest)
      | (some hi, '\\' :: '\x7d' :: rest) => if lo ≤ hi then some (lo, some hi, rest) else none
      | _ => none
  | _ => none

/-- The pattern ends here, or the group does. -/
def closes (inner : Bool) : List Char → Bool
  | [] => true
  | '\\' :: ')' :: _ => inner
  | _ => false

/-- Read a pattern, or a group up to its closing parenthesis. -/
def parse : ℕ → Bool → Reading → List Char → Option (Bre × ℕ × List Char)
  | 0, _, _, _ => none
  | _ + 1, inner, p, [] => if inner then none else some (p.done, p.opened, [])
  | fuel + 1, inner, p, c :: cs =>
      if c = '\\' then
        match cs with
        | [] => none
        | '(' :: cs =>
            (parse fuel true (Reading.start (p.opened + 1)) cs).bind fun (r, opened, cs) =>
              parse fuel inner { p.push (.group (p.opened + 1) r) with opened := opened } cs
        | ')' :: cs => if inner then some (p.done, p.opened, cs) else none
        | '\x7b' :: cs =>
            (interval cs).bind fun (lo, hi, cs) =>
              (p.repeated lo hi).bind fun p => parse fuel inner p cs
        | d :: cs =>
            let n := d.toNat - '0'.toNat
            if d.isDigit && d != '0' then
              if n ≤ p.opened then parse fuel inner (p.push (.back n)) cs else none
            else parse fuel inner (p.push (.one (· == d))) cs
      else if c = '[' then
        (bracket cs).bind fun (f, cs) => parse fuel inner (p.push (.one f)) cs
      else if c = '.' then parse fuel inner (p.push (.one fun _ => true)) cs
      else if c = '*' && p.last.isSome then
        (p.repeated 0 none).bind fun p => parse fuel inner p cs
      else if c = '^' && p.fresh then parse fuel inner (p.anchor .begins) cs
      else if c = '$' && closes inner cs then parse fuel inner (p.anchor .ends) cs
      else parse fuel inner (p.push (.one (· == c))) cs

/-- `regcomp` -/
def compile (pattern : List Char) : Option Bre :=
  (parse (pattern.length + 1) false (Reading.start 0) pattern).map Prod.fst

example : (compile "a\\(b*\\)\\1$".toList).map (search · "xabbbb".toList) = some true := by decide

/-! ## Words -/

/-- Characters one after another, each of its own kind. -/
def chain (r : Bre) (fs : List (Char → Bool)) : Bre := fs.foldl (fun r f => .seq r (.one f)) r

/-- The place behind these characters. -/
def eat : List (Char → Bool) → Place → Option Place
  | [], p => some p
  | f :: fs, p =>
      match p.rest with
      | [] => none
      | c :: cs => if f c then eat fs { p with atStart := false, rest := cs } else none

theorem run_seq (r s : Bre) (p : Place) : run (.seq r s) p = (run r p).flatMap (run s) := rfl

/-- One more character is one more character to eat. -/
theorem eat_cons (f : Char → Bool) (fs : List (Char → Bool)) (p : Place) :
    (run (.one f) p).flatMap (fun q => (eat fs q).toList) = (eat (f :: fs) p).toList := by
  rw [run, eat]
  cases p.rest with
  | nil => rfl
  | cons c cs =>
      dsimp only
      split
      · simp
      · rfl

/-- **What the expression of a word matches.** -/
theorem run_chain (r : Bre) (fs : List (Char → Bool)) (p : Place) :
    run (chain r fs) p = (run r p).flatMap fun q => (eat fs q).toList := by
  induction fs generalizing r with
  | nil => simp [chain, eat]
  | cons f fs ih =>
      show run (chain (.seq r (.one f)) fs) p = _
      rw [ih, run_seq, List.flatMap_assoc]
      exact congrArg (fun g => (run r p).flatMap g) (funext fun q => eat_cons f fs q)

/-- A word is eaten where the string goes on with it. -/
theorem eat_isSome_iff (fs : List (Char → Bool)) (p : Place) :
    (eat fs p).isSome ↔
      ∃ w rest, p.rest = w ++ rest ∧ List.Forall₂ (fun f c => f c = true) fs w := by
  induction fs generalizing p with
  | nil => exact ⟨fun _ => ⟨[], p.rest, rfl, .nil⟩, fun _ => rfl⟩
  | cons f fs ih =>
      constructor
      · intro h
        unfold eat at h
        cases hrest : p.rest with
        | nil => simp [hrest] at h
        | cons c cs =>
            simp only [hrest] at h
            split at h
            next hf =>
              obtain ⟨w, rest, hcs, hw⟩ := (ih _).mp h
              dsimp only at hcs
              exact ⟨c :: w, rest, by rw [hcs]; rfl, .cons hf hw⟩
            · cases h
      · rintro ⟨w, rest, hp, hw⟩
        cases hw with
        | cons hf hw =>
            unfold eat
            rw [hp]
            simp only [List.cons_append, if_pos hf]
            exact (ih _).mpr ⟨_, rest, rfl, hw⟩

/-- A pattern that is held at the start is found where the string starts with it. -/
theorem search_chain_iff (fs : List (Char → Bool)) (s : List Char) :
    search (chain (.seq .empty .begins) fs) s ↔
      ∃ w rest, s = w ++ rest ∧ List.Forall₂ (fun f c => f c = true) fs w := by
  have hrun : ∀ i, run (chain (.seq .empty .begins) fs) (Place.of s i) =
      if i = 0 then (eat fs (Place.of s i)).toList else [] := by
    intro i
    rw [run_chain, run_seq]
    show ((run .empty (Place.of s i)).flatMap (run .begins)).flatMap _ = _
    simp only [run, List.flatMap_cons, List.flatMap_nil, List.append_nil]
    by_cases hi : i = 0
    · subst hi
      simp [Place.of]
    · simp [Place.of, hi]
  have hstart := eat_isSome_iff fs (Place.of s 0)
  rw [show (Place.of s 0).rest = s from rfl] at hstart
  rw [← hstart, search, List.any_eq_true]
  constructor
  · rintro ⟨i, -, hi⟩
    rw [hrun] at hi
    split at hi
    next hzero =>
      subst hzero
      cases heat : eat fs (Place.of s 0) with
      | none => simp [heat] at hi
      | some q => rfl
    · simp at hi
  · intro h
    obtain ⟨q, hq⟩ := Option.isSome_iff_exists.mp h
    exact ⟨0, by simp, by rw [hrun, if_pos rfl, hq]; rfl⟩

/-- A word, and what comes behind it. -/
theorem forall₂_word_append_iff {w s : List Char} {fs : List (Char → Bool)} :
    List.Forall₂ (fun f c => f c = true) (w.map (fun c d => d == c) ++ fs) s ↔
      ∃ v, s = w ++ v ∧ List.Forall₂ (fun f c => f c = true) fs v := by
  induction w generalizing s with
  | nil => exact ⟨fun h => ⟨s, rfl, h⟩, fun ⟨v, hs, hv⟩ => hs ▸ hv⟩
  | cons c w ih =>
      rw [List.map_cons, List.cons_append, List.forall₂_cons_left_iff]
      constructor
      · rintro ⟨d, u, hd, hu, rfl⟩
        obtain ⟨v, rfl, hv⟩ := ih.mp hu
        obtain rfl : d = c := beq_iff_eq.mp hd
        exact ⟨v, rfl, hv⟩
      · rintro ⟨v, rfl, hv⟩
        exact ⟨c, w ++ v, beq_self_eq_true c, ih.mpr ⟨v, rfl, hv⟩, rfl⟩

/-- Some characters of one kind. -/
theorem forall₂_replicate_iff {n : ℕ} {f : Char → Bool} {s : List Char} :
    List.Forall₂ (fun f c => f c = true) (List.replicate n f) s ↔
      s.length = n ∧ ∀ c ∈ s, f c = true := by
  induction n generalizing s with
  | zero =>
      rw [List.replicate_zero, List.forall₂_nil_left_iff]
      exact ⟨fun h => h ▸ ⟨rfl, by simp⟩, fun h => List.length_eq_zero_iff.mp h.1⟩
  | succ n ih =>
      rw [List.replicate_succ, List.forall₂_cons_left_iff]
      constructor
      · rintro ⟨c, u, hc, hu, rfl⟩
        obtain ⟨hlength, hall⟩ := ih.mp hu
        exact ⟨by rw [List.length_cons, hlength], List.forall_mem_cons.mpr ⟨hc, hall⟩⟩
      · rintro ⟨hlength, hall⟩
        cases s with
        | nil => cases hlength
        | cons c u =>
            obtain ⟨hc, hu⟩ := List.forall_mem_cons.mp hall
            exact ⟨c, u, hc, ih.mpr ⟨Nat.succ.inj hlength, hu⟩, rfl⟩

/-- An ordinary character of a pattern. -/
def Plain (c : Char) : Prop := c ≠ '\\' ∧ c ≠ '[' ∧ c ≠ '.' ∧ c ≠ '*'

instance (c : Char) : Decidable (Plain c) := inferInstanceAs (Decidable (_ ∧ _))

variable {fuel : ℕ} {inner : Bool} {p : Reading} {c : Char} {cs : List Char}

/-- **An ordinary character is read as itself.** -/
theorem parse_char (hc : Plain c) (hfresh : p.fresh = false) (hcs : closes inner cs = false) :
    parse (fuel + 1) inner p (c :: cs) = parse fuel inner (p.push (.one (· == c))) cs := by
  obtain ⟨hslash, hbracket, hdot, hstar⟩ := hc
  conv_lhs => rw [parse.eq_def]
  dsimp only
  rw [if_neg hslash, if_neg hbracket, if_neg hdot, if_neg (by simp [hstar]),
    if_neg (by simp [hfresh]), if_neg (by simp [hcs])]

/-- The reading behind a word. -/
def Reading.chars (p : Reading) (fs : List (Char → Bool)) : Reading :=
  fs.foldl (fun p f => p.push (.one f)) p

theorem done_chars (p : Reading) (fs : List (Char → Bool)) :
    (p.chars fs).done = chain p.done fs := by
  induction fs generalizing p with
  | nil => rfl
  | cons f fs ih => exact ih (p.push (.one f))

/-- A word of ordinary characters does not end a group. -/
theorem closes_append {w : List Char} (hw : ∀ c ∈ w, Plain c) (hcs : closes inner cs = false) :
    closes inner (w ++ cs) = false := by
  cases w with
  | nil => exact hcs
  | cons c w =>
      have hslash := (hw c List.mem_cons_self).1
      unfold closes
      split
      · contradiction
      next heq =>
        simp only [List.cons_append, List.cons.injEq] at heq
        exact absurd heq.1 hslash
      · rfl

/-- **A word of ordinary characters is read as itself.** -/
theorem parse_chars {w : List Char} (hw : ∀ c ∈ w, Plain c) (hfresh : p.fresh = false)
    (hcs : closes inner cs = false) :
    parse (fuel + w.length) inner p (w ++ cs) =
      parse fuel inner (p.chars (w.map fun c d => d == c)) cs := by
  induction w generalizing p with
  | nil => rfl
  | cons c w ih =>
      have hrest : ∀ d ∈ w, Plain d := fun d hd => hw d (List.mem_cons_of_mem _ hd)
      rw [List.cons_append, List.length_cons, ← Nat.add_assoc,
        parse_char (hw c List.mem_cons_self) hfresh (closes_append hrest hcs)]
      exact ih hrest rfl

theorem parse_dot : parse (fuel + 1) inner p ('.' :: cs) =
    parse fuel inner (p.push (.one fun _ => true)) cs := by
  conv_lhs => rw [parse.eq_def]
  rfl

theorem parse_bracket {f : Char → Bool} {rest : List Char} (h : bracket cs = some (f, rest)) :
    parse (fuel + 1) inner p ('[' :: cs) = parse fuel inner (p.push (.one f)) rest := by
  conv_lhs => rw [parse.eq_def]
  show (bracket cs).bind _ = _
  rw [h]
  rfl

/-- A bracket expression of one range. -/
theorem bracket_range {a b : Char} (ha : a ≠ '^') (hb : b ≠ ']')
    (hab : a ≤ b) : bracket (a :: '-' :: b :: ']' :: cs) =
      some (fun c => decide (a ≤ c) && decide (c ≤ b) || false, cs) := by
  have hmember : bracketMember (a :: '-' :: b :: ']' :: cs) =
      some (fun c => decide (a ≤ c) && decide (c ≤ b), ']' :: cs) := by
    rw [bracketMember, if_pos hab]
    exact hb
  have hbracket : bracket (a :: '-' :: b :: ']' :: cs) =
      bracketMembers (cs.length + 5) true (a :: '-' :: b :: ']' :: cs) := by
    unfold bracket
    split
    next heq => exact absurd (List.cons.inj heq).1 ha
    · rfl
  rw [hbracket, bracketMembers, if_neg (by simp), hmember]
  rfl

/-- The expression of a pattern that is held at the start. -/
theorem compile_begins {fs : List (Char → Bool)}
    (h : parse cs.length.succ false ((Reading.start 0).anchor .begins) cs =
      parse (fuel + 1) false (((Reading.start 0).anchor .begins).chars fs) []) :
    compile ('^' :: cs) = some (chain (.seq .empty .begins) fs) := by
  have hparse : parse (('^' :: cs).length + 1) false (Reading.start 0) ('^' :: cs) =
      parse cs.length.succ false ((Reading.start 0).anchor .begins) cs := by
    conv_lhs => rw [parse.eq_def]
    rfl
  rw [compile, hparse, h, parse, if_neg (by simp), done_chars]
  rfl

end Bre

end VlbiStreamer.Library
