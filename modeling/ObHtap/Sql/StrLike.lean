import Mathlib.Data.List.Infix
import ObHtap.Library.EcmaRegex
import ObHtap.Sql.ComparisonLaws

/-!
# `LIKE` by regular expressions

`Value::str_like` (`value.cpp`) makes a regular expression out of a pattern, by one replacement
after the other, and matches the whole string with it.
-/

namespace ObHtap

namespace Sql

open EcmaRegex

/-! ## The regular expression of a pattern -/

/-- `regex_special_chars`. -/
def regexSpecialChars : List UInt8 :=
  [92, 94, 46, 36, 124, 40, 41, 91, 93, 42, 43, 63]

/-- `regex_replace` of one character. -/
def regexReplace (c : UInt8) (replacement s : List UInt8) : List UInt8 :=
  s.flatMap fun d => if d = c then replacement else [d]

/-- The pattern as a regular expression. -/
def likeRegex (pattern : List UInt8) : List UInt8 :=
  let escaped := regexSpecialChars.foldl (fun pattern c => regexReplace c [92, c] pattern) pattern
  regexReplace 95 [46] (regexReplace 37 [46, 42] escaped)

/-- `Value::str_like` on the printed values; `none` when `std::regex` throws. -/
def strLike (s pattern : List UInt8) : Option Bool :=
  (parse (likeRegex pattern)).map fun terms => isMatch terms s

/-- What the replacements make of one character. -/
def likeToken (c : UInt8) : List UInt8 :=
  if c = 37 then [46, 42]
  else if c = 95 then [46]
  else if c ∈ regexSpecialChars then [92, c]
  else [c]

theorem foldl_regexReplace (cs : List UInt8) (replacement : UInt8 → List UInt8)
    (pattern : List UInt8) :
    cs.foldl (fun pattern c => regexReplace c (replacement c) pattern) pattern =
      pattern.flatMap fun d =>
        cs.foldl (fun pattern c => regexReplace c (replacement c) pattern) [d] := by
  induction cs generalizing pattern with
  | nil => exact (List.flatMap_singleton' pattern).symm
  | cons c cs ih =>
    rw [List.foldl_cons, ih, regexReplace, List.flatMap_assoc]
    apply List.flatMap_congr
    intro d _
    rw [List.foldl_cons, ih (regexReplace c (replacement c) [d]), regexReplace,
      List.flatMap_singleton]

/-- Characters of a list one by one, not all the characters that there are. -/
theorem forall_mem_of_all {P : UInt8 → Prop} [DecidablePred P] {cs : List UInt8}
    (h : (cs.all fun c => P c) = true) : ∀ c ∈ cs, P c :=
  fun c hc => of_decide_eq_true (List.all_eq_true.mp h c hc)

theorem regexReplace_of_ne {c d : UInt8} (h : d ≠ c) (replacement : List UInt8) :
    regexReplace c replacement [d] = [d] := by
  rw [regexReplace, List.flatMap_singleton, if_neg h]

theorem foldl_regexReplace_of_notMem {cs : List UInt8} {d : UInt8} (h : d ∉ cs)
    (replacement : UInt8 → List UInt8) :
    cs.foldl (fun pattern c => regexReplace c (replacement c) pattern) [d] = [d] := by
  induction cs with
  | nil => rfl
  | cons c cs ih =>
    rw [List.mem_cons, not_or] at h
    rw [List.foldl_cons, regexReplace_of_ne h.1, ih h.2]

theorem likeRegex_singleton (c : UInt8) : likeRegex [c] = likeToken c := by
  by_cases hc : c ∈ 37 :: 95 :: regexSpecialChars
  · have hall : ∀ d ∈ 37 :: 95 :: regexSpecialChars, likeRegex [d] = likeToken d :=
      forall_mem_of_all (by decide)
    exact hall c hc
  · rw [List.mem_cons, List.mem_cons, not_or, not_or] at hc
    rw [likeRegex, foldl_regexReplace_of_notMem hc.2.2, regexReplace_of_ne hc.1,
      regexReplace_of_ne hc.2.1, likeToken, if_neg hc.1, if_neg hc.2.1, if_neg hc.2.2]

/-- Every character is replaced for itself, whatever stands around it. -/
theorem likeRegex_eq (pattern : List UInt8) : likeRegex pattern = pattern.flatMap likeToken := by
  have hflat : likeRegex pattern = pattern.flatMap fun c => likeRegex [c] := by
    rw [likeRegex, foldl_regexReplace, regexReplace, regexReplace, List.flatMap_assoc,
      List.flatMap_assoc]
    apply List.flatMap_congr
    intro c _
    rw [likeRegex, regexReplace, regexReplace, List.flatMap_assoc]
  rw [hflat]
  exact List.flatMap_congr fun c _ => likeRegex_singleton c

attribute [irreducible] likeRegex

theorem likeRegex_cons (c : UInt8) (pattern : List UInt8) :
    likeRegex (c :: pattern) = likeToken c ++ likeRegex pattern := by
  rw [likeRegex_eq, likeRegex_eq, List.flatMap_cons]

theorem likeToken_ne_nil (c : UInt8) : likeToken c ≠ [] := by
  unfold likeToken
  split_ifs <;> exact List.cons_ne_nil _ _

/-- A character that is kept stands in the pattern, and is none of the special ones. -/
theorem of_likeRegex_eq_cons {pattern rest : List UInt8} {c : UInt8} (hc : c ≠ 92 ∧ c ≠ 46)
    (h : likeRegex pattern = c :: rest) :
    c ∉ regexSpecialChars ∧ ∃ pattern', pattern = c :: pattern' ∧ rest = likeRegex pattern' := by
  cases pattern with
  | nil =>
    rw [likeRegex_eq] at h
    cases h
  | cons d pattern =>
    rw [likeRegex_cons] at h
    unfold likeToken at h
    split_ifs at h with h1 h2 h3
    all_goals rw [List.cons_append, List.cons.injEq] at h
    · exact absurd h.1.symm hc.2
    · exact absurd h.1.symm hc.2
    · exact absurd h.1.symm hc.1
    · rw [List.nil_append] at h
      obtain ⟨rfl, hrest⟩ := h
      exact ⟨h3, pattern, rfl, hrest.symm⟩

theorem likeToken_digit {c : UInt8} (h : isDecimalDigit c = true) : likeToken c = [c] := by
  have hc : c ∉ 37 :: 95 :: regexSpecialChars := by
    intro hmem
    have hall : ∀ d ∈ 37 :: 95 :: regexSpecialChars, isDecimalDigit d = false :=
      forall_mem_of_all (by decide)
    rw [hall c hmem] at h
    cases h
  rw [List.mem_cons, List.mem_cons, not_or, not_or] at hc
  rw [likeToken, if_neg hc.1, if_neg hc.2.1, if_neg hc.2.2]

theorem likeToken_not_digit {c : UInt8} (h : isDecimalDigit c = false) :
    ∃ d rest, likeToken c = d :: rest ∧ isDecimalDigit d = false := by
  unfold likeToken
  split_ifs
  · exact ⟨46, [42], rfl, rfl⟩
  · exact ⟨46, [], rfl, rfl⟩
  · exact ⟨92, [c], rfl, rfl⟩
  · exact ⟨c, [], rfl, h⟩

theorem dropWhile_digits (pattern : List UInt8) :
    (likeRegex pattern).dropWhile isDecimalDigit =
      likeRegex (pattern.dropWhile isDecimalDigit) := by
  induction pattern with
  | nil => simp only [likeRegex_eq, List.flatMap_nil, List.dropWhile_nil]
  | cons c pattern ih =>
    rw [likeRegex_cons]
    cases hdigit : isDecimalDigit c with
    | true =>
      rw [likeToken_digit hdigit, List.singleton_append, List.dropWhile_cons_of_pos hdigit,
        List.dropWhile_cons_of_pos hdigit, ih]
    | false =>
      obtain ⟨d, rest, htoken, hd⟩ := likeToken_not_digit hdigit
      rw [htoken, List.cons_append, List.dropWhile_cons_of_neg (by simp [hd]),
        List.dropWhile_cons_of_neg (by simp [hdigit]), likeRegex_cons, htoken, List.cons_append]

/-! ## What the pattern is parsed as -/

/-- What a character of a pattern stands for. -/
def likeTerm (c : UInt8) : EcmaRegex.Term :=
  if c = 37 then ⟨.any, 0, none⟩
  else if c = 95 then ⟨.any, 1, some 1⟩
  else ⟨.char c, 1, some 1⟩

/-- A brace, which is not escaped. -/
def isBrace (c : UInt8) : Prop :=
  c = 123 ∨ c = 125

instance (c : UInt8) : Decidable (isBrace c) :=
  inferInstanceAs (Decidable (_ ∨ _))

theorem parseQuantifier_of_notMem {c : UInt8} (h : c ∉ ([42, 43, 63, 123] : List UInt8))
    (rest : List UInt8) : parseQuantifier (c :: rest) = some ((1, some 1), c :: rest) := by
  simp only [List.mem_cons, List.not_mem_nil, or_false, not_or] at h
  unfold parseQuantifier
  split
  · next heq => exact absurd (List.cons.inj heq).1 h.1
  · next heq => exact absurd (List.cons.inj heq).1 h.2.1
  · next heq => exact absurd (List.cons.inj heq).1 h.2.2.1
  · next heq => exact absurd (List.cons.inj heq).1 h.2.2.2
  · rfl

/-- Only a left brace in the pattern is taken for a quantifier. -/
theorem parseQuantifier_likeRegex {pattern : List UInt8} (h : pattern.head? ≠ some 123) :
    parseQuantifier (likeRegex pattern) = some ((1, some 1), likeRegex pattern) := by
  cases hregex : likeRegex pattern with
  | nil => rfl
  | cons c rest =>
    apply parseQuantifier_of_notMem
    intro hc
    have hkept : c ≠ 92 ∧ c ≠ 46 := by
      constructor <;> rintro rfl <;> exact absurd hc (by decide)
    obtain ⟨hspecial, pattern', rfl, -⟩ := of_likeRegex_eq_cons hkept hregex
    have hbrace : c = 123 := by
      have hall : ∀ d ∈ ([42, 43, 63, 123] : List UInt8), d ∉ regexSpecialChars → d = 123 :=
        forall_mem_of_all (by decide)
      exact hall c hc hspecial
    exact h (congrArg some hbrace)

theorem skipReluctant_likeRegex (pattern : List UInt8) :
    skipReluctant (likeRegex pattern) = likeRegex pattern := by
  unfold skipReluctant
  split
  · next heq =>
    have hspecial := (of_likeRegex_eq_cons (by decide) heq).1
    exact absurd (by decide) hspecial
  · rfl

theorem not_syntax_of_kept {c : UInt8} (hbrace : ¬ isBrace c) (h : c ∉ regexSpecialChars) :
    c ∉ syntaxCharacters := by
  intro hc
  have hall : ∀ d ∈ syntaxCharacters, d ∉ regexSpecialChars → isBrace d :=
    forall_mem_of_all (by decide)
  exact hbrace (hall c hc h)

theorem parseAtom_of_notMem {c : UInt8} (h : c ∉ syntaxCharacters) (rest : List UInt8) :
    parseAtom (c :: rest) = some (.char c, rest) := by
  have hbackslash : c ≠ 92 := by
    rintro rfl
    exact h (by decide)
  have hdot : c ≠ 46 := by
    rintro rfl
    exact h (by decide)
  unfold parseAtom
  split
  · next heq => cases heq
  · next heq => exact absurd (List.cons.inj heq).1 hbackslash
  · next heq => exact absurd (List.cons.inj heq).1 hbackslash
  · next heq => exact absurd (List.cons.inj heq).1 hdot
  · next d rest' _ _ heq =>
    obtain ⟨rfl, rfl⟩ := List.cons.inj heq
    rw [if_neg h]

theorem parseAtom_escaped {c : UInt8} (h : c ∈ syntaxCharacters) (rest : List UInt8) :
    parseAtom (92 :: c :: rest) = some (.char c, rest) :=
  if_pos h

theorem parseAtom_dot (rest : List UInt8) : parseAtom (46 :: rest) = some (.any, rest) :=
  rfl

theorem parseTerm_of {s rest rest' : List UInt8} {atom : Atom} {least : Nat}
    {greatest : Option Nat} (hatom : parseAtom s = some (atom, rest))
    (hquantifier : parseQuantifier rest = some ((least, greatest), rest')) :
    parseTerm s = some (⟨atom, least, greatest⟩, rest') := by
  rw [parseTerm, hatom]
  change (parseQuantifier rest).bind _ = _
  rw [hquantifier]
  rfl

/-- A character of a pattern is one term, unless braces come behind it. -/
theorem parseTerm_likeRegex {c : UInt8} {pattern : List UInt8} (hbrace : ¬ isBrace c)
    (hnext : pattern.head? ≠ some 123) :
    parseTerm (likeRegex (c :: pattern)) = some (likeTerm c, likeRegex pattern) := by
  have hquantifier := parseQuantifier_likeRegex hnext
  rw [likeRegex_cons]
  unfold likeToken likeTerm
  split_ifs with hpercent hunderscore hspecial
  all_goals rw [List.cons_append]
  · have hstar : parseQuantifier (42 :: likeRegex pattern) =
        some ((0, none), likeRegex pattern) := by
      rw [parseQuantifier, skipReluctant_likeRegex]
    rw [List.cons_append, List.nil_append]
    exact parseTerm_of (parseAtom_dot _) hstar
  · rw [List.nil_append]
    exact parseTerm_of (parseAtom_dot _) hquantifier
  · have hall : ∀ d ∈ regexSpecialChars, d ∈ syntaxCharacters :=
      forall_mem_of_all (by decide)
    rw [List.cons_append, List.nil_append]
    exact parseTerm_of (parseAtom_escaped (hall c hspecial) _) hquantifier
  · rw [List.nil_append]
    exact parseTerm_of (parseAtom_of_notMem (not_syntax_of_kept hbrace hspecial) _) hquantifier

theorem parse_nil : parse [] = some [] := by
  rw [parse, if_pos rfl]

theorem parse_of_parseTerm {s rest : List UInt8} {term : EcmaRegex.Term}
    (h : parseTerm s = some (term, rest)) (hlt : rest.length < s.length) :
    parse s = (parse rest).map (term :: ·) := by
  have hne : s ≠ [] := by
    rintro rfl
    exact absurd hlt (Nat.not_lt_zero _)
  rw [parse, if_neg hne, h]
  exact if_pos hlt

theorem length_likeRegex_cons (c : UInt8) (pattern : List UInt8) :
    (likeRegex pattern).length < (likeRegex (c :: pattern)).length := by
  have hpos := List.length_pos_of_ne_nil (likeToken_ne_nil c)
  rw [likeRegex_cons, List.length_append]
  omega

/-- Without braces every character of the pattern is a term of its own. -/
theorem parse_likeRegex {pattern : List UInt8} (h : ∀ c ∈ pattern, ¬ isBrace c) :
    parse (likeRegex pattern) = some (pattern.map likeTerm) := by
  induction pattern with
  | nil =>
    rw [likeRegex_eq, List.flatMap_nil, parse_nil]
    rfl
  | cons c pattern ih =>
    obtain ⟨hc, hpattern⟩ := List.forall_mem_cons.mp h
    have hnext : pattern.head? ≠ some 123 := fun hhead =>
      hpattern 123 (List.mem_of_head? hhead) (.inl rfl)
    rw [parse_of_parseTerm (parseTerm_likeRegex hc hnext) (length_likeRegex_cons c pattern),
      ih hpattern]
    rfl

/-! ## What the pattern matches -/

/-- The line breaks in a text. -/
def lineBreaks (s : List UInt8) : Nat :=
  s.countP isLineTerminator

theorem lineBreaks_append (s t : List UInt8) : lineBreaks (s ++ t) = lineBreaks s + lineBreaks t :=
  List.countP_append

theorem lineBreaks_cons (c : UInt8) (s : List UInt8) :
    lineBreaks (c :: s) = lineBreaks s + if isLineTerminator c then 1 else 0 :=
  List.countP_cons

theorem toLower_eq (c : UInt8) :
    toLower c = c ∨ 65 ≤ c.toNat ∧ c.toNat ≤ 90 ∧ (toLower c).toNat = c.toNat + 32 := by
  unfold toLower
  split_ifs with hupper
  · obtain ⟨hlow, hhigh⟩ := hupper
    rw [UInt8.le_iff_toNat_le] at hlow hhigh
    have hadd : (c + 32).toNat = c.toNat + 32 := by
      rw [UInt8.toNat_add]
      exact Nat.mod_eq_of_lt (Nat.lt_of_le_of_lt (Nat.add_le_add_right hhigh 32) (by decide))
    exact Or.inr ⟨hlow, hhigh, hadd⟩
  · exact Or.inl rfl

theorem isLineTerminator_of_lt {c : UInt8} (h : 13 < c.toNat) : isLineTerminator c = false := by
  apply decide_eq_false
  rintro (rfl | rfl) <;> exact absurd h (by decide)

theorem isLineTerminator_toLower (c : UInt8) :
    isLineTerminator (toLower c) = isLineTerminator c := by
  rcases toLower_eq c with heq | ⟨hlow, -, hlower⟩
  · rw [heq]
  · rw [isLineTerminator_of_lt (by omega), isLineTerminator_of_lt (by omega)]

theorem likeMatch_percent {pattern s : List UInt8} :
    likeMatch (37 :: pattern) s = true ↔
      ∃ before after, s = before ++ after ∧ likeMatch pattern after = true := by
  rw [likeMatch, List.any_eq_true]
  constructor
  · rintro ⟨after, hafter, hmatch⟩
    obtain ⟨before, hs⟩ := (List.mem_tails _ _).mp hafter
    exact ⟨before, after, hs.symm, hmatch⟩
  · rintro ⟨before, after, rfl, hmatch⟩
    exact ⟨after, (List.mem_tails _ _).mpr (List.suffix_append before after), hmatch⟩

theorem likeMatch_underscore {pattern s : List UInt8} :
    likeMatch (95 :: pattern) s = true ↔
      ∃ d rest, s = d :: rest ∧ likeMatch pattern rest = true := by
  rw [likeMatch, decide_eq_true_eq]
  cases s with
  | nil => exact iff_of_false (fun h => h.1 rfl) nofun
  | cons d rest =>
    constructor
    · exact fun h => ⟨d, rest, rfl, h.2⟩
    · rintro ⟨_, _, heq, hmatch⟩
      obtain ⟨rfl, rfl⟩ := List.cons.inj heq
      exact ⟨List.cons_ne_nil _ _, hmatch⟩

theorem likeMatch_char {c : UInt8} {pattern s : List UInt8} (hpercent : c ≠ 37)
    (hunderscore : c ≠ 95) :
    likeMatch (c :: pattern) s = true ↔
      ∃ d rest, s = d :: rest ∧ toLower d = toLower c ∧ likeMatch pattern rest = true := by
  rw [likeMatch, decide_eq_true_eq]
  · cases s with
    | nil => exact iff_of_false (fun h => nomatch h.1) nofun
    | cons d rest =>
      constructor
      · exact fun h => ⟨d, rest, rfl, Option.some.inj h.1, h.2⟩
      · rintro ⟨_, _, heq, hlower, hmatch⟩
        obtain ⟨rfl, rfl⟩ := List.cons.inj heq
        exact ⟨congrArg some hlower, hmatch⟩
  · exact fun h => hpercent h
  · exact fun h => hunderscore h

theorem isMatch_one {atom : Atom} {terms : List EcmaRegex.Term} {s : List UInt8} :
    isMatch (⟨atom, 1, some 1⟩ :: terms) s = true ↔
      ∃ d rest, s = d :: rest ∧ atom.accepts d = true ∧ isMatch terms rest = true := by
  rw [isMatch_cons_iff]
  constructor
  · rintro ⟨before, after, rfl, hallows, haccepts, hrest⟩
    have hlen : before.length = 1 := by
      simp [EcmaRegex.Term.allows] at hallows
      omega
    obtain ⟨d, rfl⟩ := List.length_eq_one_iff.mp hlen
    exact ⟨d, after, rfl, haccepts d List.mem_cons_self, hrest⟩
  · rintro ⟨d, rest, rfl, haccepts, hrest⟩
    refine ⟨[d], rest, rfl, rfl, ?_, hrest⟩
    intro c hc
    rwa [List.mem_singleton.mp hc]

theorem isMatch_star {terms : List EcmaRegex.Term} {s : List UInt8} :
    isMatch (⟨.any, 0, none⟩ :: terms) s = true ↔
      ∃ before after, s = before ++ after ∧ lineBreaks before = 0 ∧ isMatch terms after = true := by
  rw [isMatch_cons_iff]
  have haccepts (before : List UInt8) : (∀ c ∈ before, Atom.any.accepts c = true) ↔
      lineBreaks before = 0 := by
    rw [lineBreaks, List.countP_eq_zero]
    simp [Atom.accepts]
  simp only [haccepts]
  exact exists_congr fun before => exists_congr fun after =>
    and_congr_right fun _ => and_iff_right rfl

/-- What a pattern matches has the line breaks of the pattern, and perhaps more. -/
theorem lineBreaks_le {pattern s : List UInt8} (h : likeMatch pattern s = true) :
    lineBreaks pattern ≤ lineBreaks s := by
  induction pattern generalizing s with
  | nil => exact Nat.zero_le _
  | cons c pattern ih =>
    rw [lineBreaks_cons]
    by_cases hpercent : c = 37
    · rw [hpercent] at h ⊢
      obtain ⟨before, after, rfl, hmatch⟩ := likeMatch_percent.mp h
      have hle := ih hmatch
      have hzero : (if isLineTerminator 37 then 1 else 0) = 0 := rfl
      rw [lineBreaks_append]
      omega
    by_cases hunderscore : c = 95
    · rw [hunderscore] at h ⊢
      obtain ⟨d, rest, rfl, hmatch⟩ := likeMatch_underscore.mp h
      have hle := ih hmatch
      have hzero : (if isLineTerminator 95 then 1 else 0) = 0 := rfl
      rw [lineBreaks_cons]
      omega
    · obtain ⟨d, rest, rfl, hlower, hmatch⟩ := (likeMatch_char hpercent hunderscore).mp h
      have hsame : isLineTerminator d = isLineTerminator c := by
        rw [← isLineTerminator_toLower, hlower, isLineTerminator_toLower]
      rw [lineBreaks_cons, hsame]
      exact Nat.add_le_add_right (ih hmatch) _

/-- The terms of a pattern match what `LIKE` matches without a line break for a wildcard. -/
theorem isMatch_likeTerms (pattern s : List UInt8) :
    isMatch (pattern.map likeTerm) s = true ↔
      likeMatch pattern s = true ∧ lineBreaks s = lineBreaks pattern := by
  induction pattern generalizing s with
  | nil =>
    rw [List.map_nil, isMatch, List.isEmpty_iff, likeMatch, decide_eq_true_eq]
    exact ⟨fun h => ⟨h, by rw [h]⟩, And.left⟩
  | cons c pattern ih =>
    rw [List.map_cons, likeTerm, lineBreaks_cons]
    by_cases hpercent : c = 37
    · have hzero : (if isLineTerminator 37 then 1 else 0) = 0 := rfl
      rw [if_pos hpercent, hpercent, isMatch_star, likeMatch_percent, hzero, Nat.add_zero]
      constructor
      · rintro ⟨before, after, rfl, hbreaks, hmatch⟩
        obtain ⟨hlike, hsame⟩ := (ih after).mp hmatch
        exact ⟨⟨before, after, rfl, hlike⟩, by rw [lineBreaks_append]; omega⟩
      · rintro ⟨⟨before, after, rfl, hlike⟩, hsame⟩
        have hle := lineBreaks_le hlike
        rw [lineBreaks_append] at hsame
        exact ⟨before, after, rfl, by omega, (ih after).mpr ⟨hlike, by omega⟩⟩
    rw [if_neg hpercent]
    by_cases hunderscore : c = 95
    · have hzero : (if isLineTerminator 95 then 1 else 0) = 0 := rfl
      rw [if_pos hunderscore, hunderscore, isMatch_one, likeMatch_underscore, hzero, Nat.add_zero]
      constructor
      · rintro ⟨d, rest, rfl, haccepts, hmatch⟩
        obtain ⟨hlike, hsame⟩ := (ih rest).mp hmatch
        have hbreak : isLineTerminator d = false := by simpa [Atom.accepts] using haccepts
        exact ⟨⟨d, rest, rfl, hlike⟩, by rw [lineBreaks_cons, hbreak, hsame]; rfl⟩
      · rintro ⟨⟨d, rest, rfl, hlike⟩, hsame⟩
        have hle := lineBreaks_le hlike
        rw [lineBreaks_cons] at hsame
        have hbreak : isLineTerminator d = false := by
          cases hd : isLineTerminator d with
          | false => rfl
          | true =>
            rw [hd, if_pos rfl] at hsame
            omega
        rw [hbreak] at hsame
        exact ⟨d, rest, rfl, by simp [Atom.accepts, hbreak], (ih rest).mpr ⟨hlike, hsame⟩⟩
    · rw [if_neg hunderscore, isMatch_one, likeMatch_char hpercent hunderscore]
      have hbreaks {d : UInt8} (hlower : toLower d = toLower c) :
          isLineTerminator d = isLineTerminator c := by
        rw [← isLineTerminator_toLower, hlower, isLineTerminator_toLower]
      constructor
      · rintro ⟨d, rest, rfl, haccepts, hmatch⟩
        obtain ⟨hlike, hsame⟩ := (ih rest).mp hmatch
        have hlower : toLower d = toLower c := of_decide_eq_true haccepts
        exact ⟨⟨d, rest, rfl, hlower, hlike⟩, by rw [lineBreaks_cons, hbreaks hlower, hsame]⟩
      · rintro ⟨⟨d, rest, rfl, hlower, hlike⟩, hsame⟩
        rw [lineBreaks_cons, hbreaks hlower] at hsame
        exact ⟨d, rest, rfl, decide_eq_true hlower,
          (ih rest).mpr ⟨hlike, Nat.add_right_cancel hsame⟩⟩

/-! ## Patterns with braces -/

/-- A term of a pattern: it matches its own sample, which has no brace. -/
structure IsLikeTerm (term : EcmaRegex.Term) : Prop where
  allows : term.allows term.least = true
  sample : ¬ isBrace term.atom.sample

theorem allows_least {atom : Atom} {least : Nat} {greatest : Option Nat}
    (h : greatest.all (least ≤ ·) = true) :
    (⟨atom, least, greatest⟩ : EcmaRegex.Term).allows least = true := by
  simp [EcmaRegex.Term.allows, h]

/-- What is read between braces ends within the pattern. -/
theorem parseBounds_likeRegex {pattern rest : List UInt8} {least : Nat} {greatest : Option Nat}
    (h : parseBounds (likeRegex pattern) = some ((least, greatest), rest)) :
    greatest.all (least ≤ ·) = true ∧ ∃ pattern', rest = likeRegex pattern' := by
  simp only [parseBounds, dropWhile_digits] at h
  split_ifs at h with hdigits
  split at h
  · next rest' heq =>
    obtain ⟨-, pattern', -, rfl⟩ := of_likeRegex_eq_cons (by decide) heq
    rw [Option.some.injEq, Prod.mk.injEq, Prod.mk.injEq] at h
    obtain ⟨⟨rfl, rfl⟩, rfl⟩ := h
    exact ⟨by simp, pattern', rfl⟩
  · next rest' heq =>
    obtain ⟨-, pattern', -, hrest⟩ := of_likeRegex_eq_cons (by decide) heq
    obtain ⟨-, pattern'', -, rfl⟩ := of_likeRegex_eq_cons (by decide) hrest.symm
    rw [Option.some.injEq, Prod.mk.injEq, Prod.mk.injEq] at h
    obtain ⟨⟨rfl, rfl⟩, rfl⟩ := h
    exact ⟨rfl, pattern'', rfl⟩
  · next more hno heq =>
    obtain ⟨-, pattern', -, rfl⟩ := of_likeRegex_eq_cons (by decide) heq
    rw [dropWhile_digits] at h
    split at h
    · next rest' hrest =>
      obtain ⟨-, pattern'', -, rfl⟩ := of_likeRegex_eq_cons (by decide) hrest
      split_ifs at h with hbad
      rw [Option.some.injEq, Prod.mk.injEq, Prod.mk.injEq] at h
      obtain ⟨⟨rfl, rfl⟩, rfl⟩ := h
      rw [not_or] at hbad
      exact ⟨by simpa using hbad.2, pattern'', rfl⟩
    · cases h
  · cases h

theorem parseQuantifier_isLike {pattern rest : List UInt8} {least : Nat} {greatest : Option Nat}
    (h : parseQuantifier (likeRegex pattern) = some ((least, greatest), rest)) :
    greatest.all (least ≤ ·) = true ∧ ∃ pattern', rest = likeRegex pattern' := by
  by_cases hhead : pattern.head? = some 123
  · obtain ⟨tail, rfl⟩ := List.head?_eq_some_iff.mp hhead
    have htoken : likeRegex (123 :: tail) = 123 :: likeRegex tail := likeRegex_cons 123 tail
    rw [htoken, parseQuantifier, Option.map_eq_some_iff] at h
    obtain ⟨⟨bounds, rest'⟩, hbounds, heq⟩ := h
    rw [Prod.mk.injEq] at heq
    obtain ⟨rfl, rfl⟩ := heq
    obtain ⟨hall, pattern', rfl⟩ := parseBounds_likeRegex hbounds
    exact ⟨hall, pattern', skipReluctant_likeRegex pattern'⟩
  · rw [parseQuantifier_likeRegex hhead, Option.some.injEq, Prod.mk.injEq, Prod.mk.injEq] at h
    obtain ⟨⟨rfl, rfl⟩, rfl⟩ := h
    exact ⟨rfl, pattern, rfl⟩

theorem of_parseTerm {s rest : List UInt8} {term : EcmaRegex.Term}
    (h : parseTerm s = some (term, rest)) :
    ∃ rest', parseAtom s = some (term.atom, rest') ∧
      parseQuantifier rest' = some ((term.least, term.greatest), rest) := by
  rw [parseTerm] at h
  cases hatom : parseAtom s with
  | none =>
    rw [hatom] at h
    cases h
  | some result =>
    obtain ⟨atom, rest'⟩ := result
    rw [hatom] at h
    change (parseQuantifier rest').bind _ = _ at h
    cases hquantifier : parseQuantifier rest' with
    | none =>
      rw [hquantifier] at h
      cases h
    | some result =>
      rw [hquantifier] at h
      cases h
      exact ⟨rest', rfl, hquantifier⟩

/-- The first term of a pattern ends within it. -/
theorem isLikeTerm_of_parseTerm {c : UInt8} {pattern rest : List UInt8} {term : EcmaRegex.Term}
    (h : parseTerm (likeRegex (c :: pattern)) = some (term, rest)) :
    IsLikeTerm term ∧ ∃ pattern', rest = likeRegex pattern' := by
  obtain ⟨rest', hatom, hquantifier⟩ := of_parseTerm h
  have hterm (hrest : rest' = likeRegex pattern) (hsample : ¬ isBrace term.atom.sample) :
      IsLikeTerm term ∧ ∃ pattern', rest = likeRegex pattern' := by
    rw [hrest] at hquantifier
    obtain ⟨hall, hpattern⟩ := parseQuantifier_isLike hquantifier
    exact ⟨⟨allows_least hall, hsample⟩, hpattern⟩
  rw [likeRegex_cons] at hatom
  unfold likeToken at hatom
  split_ifs at hatom with hpercent hunderscore hspecial
  all_goals rw [List.cons_append] at hatom
  · rw [List.cons_append, List.nil_append, parseAtom_dot, Option.some.injEq, Prod.mk.injEq] at hatom
    obtain ⟨hany, rfl⟩ := hatom
    rw [parseQuantifier, skipReluctant_likeRegex, Option.some.injEq, Prod.mk.injEq,
      Prod.mk.injEq] at hquantifier
    obtain ⟨⟨hleast, hgreatest⟩, rfl⟩ := hquantifier
    refine ⟨⟨?_, ?_⟩, pattern, rfl⟩
    · simp [EcmaRegex.Term.allows, ← hleast, ← hgreatest]
    · rw [← hany]
      decide
  · rw [List.nil_append, parseAtom_dot, Option.some.injEq, Prod.mk.injEq] at hatom
    exact hterm hatom.2.symm (by rw [← hatom.1]; decide)
  · have hspecials : ∀ d ∈ regexSpecialChars, d ∈ syntaxCharacters ∧ ¬ isBrace d :=
      forall_mem_of_all (by decide)
    rw [List.cons_append, List.nil_append, parseAtom_escaped (hspecials c hspecial).1,
      Option.some.injEq, Prod.mk.injEq] at hatom
    exact hterm hatom.2.symm (by rw [← hatom.1]; exact (hspecials c hspecial).2)
  · by_cases hbrace : isBrace c
    · rcases hbrace with rfl | rfl <;> cases hatom
    · rw [List.nil_append, parseAtom_of_notMem (not_syntax_of_kept hbrace hspecial),
        Option.some.injEq, Prod.mk.injEq] at hatom
      exact hterm hatom.2.symm (by rw [← hatom.1]; exact hbrace)

theorem isLikeTerm_of_parse (n : Nat) {pattern : List UInt8} {terms : List EcmaRegex.Term}
    (hn : (likeRegex pattern).length = n) (h : parse (likeRegex pattern) = some terms) :
    ∀ term ∈ terms, IsLikeTerm term := by
  induction n using Nat.strongRecOn generalizing pattern terms with
  | ind n ih =>
    cases pattern with
    | nil =>
      rw [likeRegex_eq, List.flatMap_nil, parse_nil] at h
      obtain rfl := Option.some.inj h
      exact fun _ hterm => nomatch hterm
    | cons c pattern =>
      have hne : likeRegex (c :: pattern) ≠ [] :=
        List.ne_nil_of_length_pos (Nat.zero_lt_of_lt (length_likeRegex_cons c pattern))
      rw [parse, if_neg hne] at h
      split at h
      · cases h
      · next term rest hterm =>
        split_ifs at h with hlt
        obtain ⟨hlike, pattern', rfl⟩ := isLikeTerm_of_parseTerm hterm
        obtain ⟨terms', hterms', rfl⟩ := Option.map_eq_some_iff.mp h
        exact List.forall_mem_cons.mpr ⟨hlike, ih _ (hn ▸ hlt) rfl hterms'⟩

/-- A brace in the pattern stands for itself. -/
theorem brace_mem_of_likeMatch {c : UInt8} {pattern s : List UInt8} (hbrace : isBrace c)
    (hc : c ∈ pattern) (h : likeMatch pattern s = true) : c ∈ s := by
  have hlower : ∀ d : UInt8, toLower d = toLower c → d = c := by
    have hhigh : 122 < c.toNat := by rcases hbrace with rfl | rfl <;> decide
    intro d hd
    -- a brace is behind the letters
    rw [(toLower_eq c).resolve_right (by omega)] at hd
    rcases toLower_eq d with heq | ⟨-, hle, hlower⟩
    · exact heq.symm.trans hd
    · rw [hd] at hlower
      omega
  induction pattern generalizing s with
  | nil => cases hc
  | cons d pattern ih =>
    by_cases hpercent : d = 37
    · rw [hpercent] at h hc
      obtain ⟨before, after, rfl, hmatch⟩ := likeMatch_percent.mp h
      have hmem := List.mem_of_ne_of_mem (by rintro rfl; exact absurd hbrace (by decide)) hc
      exact List.mem_append_right _ (ih hmem hmatch)
    by_cases hunderscore : d = 95
    · rw [hunderscore] at h hc
      obtain ⟨e, rest, rfl, hmatch⟩ := likeMatch_underscore.mp h
      have hmem := List.mem_of_ne_of_mem (by rintro rfl; exact absurd hbrace (by decide)) hc
      exact List.mem_cons_of_mem _ (ih hmem hmatch)
    · obtain ⟨e, rest, rfl, he, hmatch⟩ := (likeMatch_char hpercent hunderscore).mp h
      rcases List.mem_cons.mp hc with rfl | hmem
      · rw [hlower e he]
        exact List.mem_cons_self
      · exact List.mem_cons_of_mem _ (ih hmem hmatch)

/-! ## The law -/

/-- The answer is the one of `LIKE`, without an exception. -/
def LikesAsSql (s pattern : List UInt8) : Prop :=
  strLike s pattern = some (likeMatch pattern s)

def NoBraces (pattern : List UInt8) : Prop :=
  ∀ c ∈ pattern, ¬ isBrace c

/-- No wildcard of the pattern has to stand for a line break. -/
def KeepsLines (s pattern : List UInt8) : Prop :=
  likeMatch pattern s = true → lineBreaks s = lineBreaks pattern

theorem likesAsSql_iff_keepsLines {s pattern : List UInt8} (h : NoBraces pattern) :
    LikesAsSql s pattern ↔ KeepsLines s pattern := by
  have hmatch := isMatch_likeTerms pattern s
  rw [LikesAsSql, strLike, parse_likeRegex h, Option.map_some, Option.some.injEq,
    Bool.eq_iff_iff, hmatch, KeepsLines]
  exact ⟨fun hiff hlike => (hiff.mpr hlike).2, fun himp => ⟨And.left, fun hlike =>
    ⟨hlike, himp hlike⟩⟩⟩

/-- With a brace in the pattern, some string that `LIKE` does not match is not told so. -/
theorem exists_not_likesAsSql {c : UInt8} {pattern : List UInt8} (hbrace : isBrace c)
    (hc : c ∈ pattern) : ∃ s, KeepsLines s pattern ∧ ¬ LikesAsSql s pattern := by
  have hnot {s : List UInt8} (hs : c ∉ s) : likeMatch pattern s = false :=
    Bool.eq_false_iff.mpr fun h => hs (brace_mem_of_likeMatch hbrace hc h)
  cases hparse : parse (likeRegex pattern) with
  | none =>
    refine ⟨[], fun h => absurd h (by rw [hnot (List.not_mem_nil)]; decide), ?_⟩
    rw [LikesAsSql, strLike, hparse]
    exact nofun
  | some terms =>
    have hterms := isLikeTerm_of_parse _ rfl hparse
    have hsample : c ∉ samples terms := by
      intro hmem
      obtain ⟨term, hterm, hreplicate⟩ := List.mem_flatMap.mp hmem
      rw [List.eq_of_mem_replicate hreplicate] at hbrace
      exact (hterms term hterm).sample hbrace
    refine ⟨samples terms, fun h => absurd h (by rw [hnot hsample]; decide), ?_⟩
    rw [LikesAsSql, strLike, hparse, Option.map_some,
      isMatch_samples fun term hterm => (hterms term hterm).allows, hnot hsample]
    decide

/-- `str_like` is `LIKE` for the patterns without braces, as long as no wildcard stands for a line
break. -/
theorem likesAsSql_iff (s pattern : List UInt8) :
    ((∀ t, KeepsLines t pattern → LikesAsSql t pattern) ↔ NoBraces pattern) ∧
      (NoBraces pattern ∧ LikesAsSql s pattern ↔ NoBraces pattern ∧ KeepsLines s pattern) := by
  refine ⟨⟨?_, fun h t => (likesAsSql_iff_keepsLines h).mpr⟩,
    and_congr_right fun h => likesAsSql_iff_keepsLines h⟩
  intro h c hc hbrace
  obtain ⟨t, hlines, hnot⟩ := exists_not_likesAsSql hbrace hc
  exact hnot (h t hlines)

/-- The percent sign does not match a line break. -/
theorem not_likesAsSql_newline : ¬ ∀ s pattern, LikesAsSql s pattern := by
  intro h
  have hbraces : NoBraces [37] := by
    intro c hc
    rw [List.mem_singleton.mp hc]
    decide
  have hlines := (likesAsSql_iff_keepsLines hbraces).mp (h [10] [37])
  exact absurd (hlines (likeMatch_percent.mpr ⟨[10], [], rfl, rfl⟩)) (by decide)

end Sql

end ObHtap
