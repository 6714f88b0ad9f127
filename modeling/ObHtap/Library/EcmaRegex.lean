import ObHtap.Library.Decimal

/-!
# Regular expressions of ECMAScript

The expressions without alternatives, groups, classes and assertions, over bytes and without regard
to the case of letters: how they are parsed and what they match.
-/

namespace ObHtap

namespace EcmaRegex

/-- A letter in lower case. -/
def lower (c : UInt8) : UInt8 :=
  if 65 ≤ c ∧ c ≤ 90 then c + 32 else c

def isLineTerminator (c : UInt8) : Bool :=
  c = 10 ∨ c = 13

def isDecimalDigit (c : UInt8) : Bool :=
  48 ≤ c ∧ c ≤ 57

/-- The characters that stand for themselves only behind a backslash. -/
def syntaxCharacters : List UInt8 :=
  [94, 36, 92, 46, 42, 43, 63, 40, 41, 91, 93, 123, 125, 124]

inductive Atom where
  | char (c : UInt8)
  /-- The dot, which no line terminator matches. -/
  | any
  deriving DecidableEq, Repr

def Atom.accepts : Atom → UInt8 → Bool
  | char c, d => lower d = lower c
  | any, d => !isLineTerminator d

/-- An atom, and how often it is repeated; without a bound when there is no greatest number. -/
structure Term where
  atom : Atom
  least : Nat
  greatest : Option Nat
  deriving DecidableEq, Repr

/-! ## Matching -/

/-- The numbers of repetitions that a quantifier allows. -/
def Term.allows (term : Term) (n : Nat) : Bool :=
  term.least ≤ n && term.greatest.all (n ≤ ·)

/-- The whole of a text matches. -/
def isMatch : List Term → List UInt8 → Bool
  | [], s => s.isEmpty
  | term :: terms, s =>
    (List.range (s.length + 1)).any fun n =>
      term.allows n && (s.take n).all term.atom.accepts && isMatch terms (s.drop n)

theorem isMatch_cons_iff {term : Term} {terms : List Term} {s : List UInt8} :
    isMatch (term :: terms) s ↔ ∃ before after, s = before ++ after ∧
      term.allows before.length = true ∧ (∀ c ∈ before, term.atom.accepts c = true) ∧
      isMatch terms after = true := by
  simp only [isMatch, List.any_eq_true, List.mem_range, Bool.and_eq_true, List.all_eq_true]
  constructor
  · rintro ⟨n, hn, ⟨hallows, haccepts⟩, hrest⟩
    refine ⟨s.take n, s.drop n, (List.take_append_drop n s).symm, ?_, haccepts, hrest⟩
    rwa [List.length_take, Nat.min_eq_left (Nat.le_of_lt_succ hn)]
  · rintro ⟨before, after, rfl, hallows, haccepts, hrest⟩
    refine ⟨before.length, ?_, ⟨hallows, ?_⟩, ?_⟩
    · rw [List.length_append]
      omega
    · rwa [List.take_left]
    · rwa [List.drop_left]

/-- A character that an atom accepts. -/
def Atom.sample : Atom → UInt8
  | char c => c
  | any => 97

theorem Atom.accepts_sample (atom : Atom) : atom.accepts atom.sample = true := by
  cases atom with
  | char c => exact decide_eq_true rfl
  | any => rfl

/-- The least number of repetitions of each term. -/
def samples (terms : List Term) : List UInt8 :=
  terms.flatMap fun term => List.replicate term.least term.atom.sample

theorem isMatch_samples {terms : List Term} (h : ∀ term ∈ terms, term.allows term.least = true) :
    isMatch terms (samples terms) = true := by
  induction terms with
  | nil => rfl
  | cons term terms ih =>
    obtain ⟨hterm, hterms⟩ := List.forall_mem_cons.mp h
    refine isMatch_cons_iff.mpr ⟨List.replicate term.least term.atom.sample, samples terms, rfl, ?_,
      ?_, ih hterms⟩
    · rwa [List.length_replicate]
    · intro c hc
      rw [List.eq_of_mem_replicate hc]
      exact term.atom.accepts_sample

/-! ## Parsing -/

def parseAtom : List UInt8 → Option (Atom × List UInt8)
  | [] => none
  | [92] => none
  | 92 :: c :: rest => if c ∈ syntaxCharacters then some (.char c, rest) else none
  | 46 :: rest => some (.any, rest)
  | c :: rest => if c ∈ syntaxCharacters then none else some (.char c, rest)

/-- The bounds between braces, behind the left one. -/
def parseBounds (s : List UInt8) : Option ((Nat × Option Nat) × List UInt8) :=
  let digits := s.takeWhile isDecimalDigit
  let least := ofDecimalDigits digits
  if digits = [] then none
  else
    match s.dropWhile isDecimalDigit with
    | 125 :: rest => some ((least, some least), rest)
    | 44 :: 125 :: rest => some ((least, none), rest)
    | 44 :: s =>
      let digits := s.takeWhile isDecimalDigit
      let greatest := ofDecimalDigits digits
      match s.dropWhile isDecimalDigit with
      | 125 :: rest =>
        if digits = [] ∨ greatest < least then none else some ((least, some greatest), rest)
      | _ => none
    | _ => none

/-- The question mark that makes a quantifier reluctant, which matches no other texts. -/
def skipReluctant : List UInt8 → List UInt8
  | 63 :: rest => rest
  | rest => rest

def parseQuantifier : List UInt8 → Option ((Nat × Option Nat) × List UInt8)
  | 42 :: rest => some ((0, none), skipReluctant rest)
  | 43 :: rest => some ((1, none), skipReluctant rest)
  | 63 :: rest => some ((0, some 1), skipReluctant rest)
  | 123 :: rest => (parseBounds rest).map fun (bounds, rest) => (bounds, skipReluctant rest)
  | rest => some ((1, some 1), rest)

def parseTerm (s : List UInt8) : Option (Term × List UInt8) := do
  let (atom, rest) ← parseAtom s
  let ((least, greatest), rest) ← parseQuantifier rest
  return (⟨atom, least, greatest⟩, rest)

/-- The terms of an expression; `none` when it is refused. -/
def parse (s : List UInt8) : Option (List Term) :=
  if s = [] then some []
  else
    match parseTerm s with
    | none => none
    | some (term, rest) =>
      if rest.length < s.length then (parse rest).map (term :: ·) else none
termination_by s.length

end EcmaRegex

end ObHtap
