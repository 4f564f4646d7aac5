import Bouine.Storage.BanMatcher

/-! # The snapshot decides as the bans do

The scanner of literal patterns is compared with their regular expressions, then the tables of a
snapshot with the bans they were made from.
-/

namespace Bouine.Storage

open Lib Lib.Regexp List

/-! ## The scanner of literal patterns -/

theorem toNat_lt_of_mem_regexpMetachars {b : UInt8} (h : b ∈ regexpMetachars) : b.toNat < 0x80 := by
  have hall : regexpMetachars.all (fun b => b.toNat < 0x80) = true := by decide
  exact of_decide_eq_true (all_eq_true.1 hall b h)

theorem literalOfBody_high {w : Bytes} (h : ∀ b ∈ w, 0x80 ≤ b.toNat) (s : Bytes) :
    literalOfBody (w ++ s) = (literalOfBody s).map (w ++ ·) := by
  induction w with
  | nil => simp
  | cons b w ih =>
    have hb := h b (by simp)
    have hslash : b ≠ byte '\\' := by
      rintro rfl
      exact absurd hb (by decide)
    have hmeta : b ∉ regexpMetachars := fun hm => by
      have := toNat_lt_of_mem_regexpMetachars hm
      omega
    rw [cons_append, literalOfBody.eq_def]
    simp only [hslash, hmeta]
    rw [ih fun b hb => h b (.tail _ hb), Option.map_map]
    rfl

theorem toNat_lt_of_isMeta {c : Char} (h : isMeta c) : c.toNat < 0x80 := by
  have hall : ['\\', '.', '+', '*', '?', '(', ')', '|', '[', ']', '{', '}', '^', '$'].all
      (fun d => d.toNat < 0x80) = true := by decide
  exact of_decide_eq_true (all_eq_true.1 hall c (of_decide_eq_true h))

theorem mem_regexpMetachars_iff {c : Char} (hc : c.toNat < 0x80) :
    c.toNat.toUInt8 ∈ regexpMetachars ↔ isMeta c = true := by
  have hlist : regexpMetachars =
      ['\\', '.', '+', '*', '?', '(', ')', '|', '[', ']', '{', '}', '^', '$'].map byte := by decide
  rw [hlist, mem_map, isMeta, decide_eq_true_iff]
  constructor
  · rintro ⟨d, hd, heq⟩
    rwa [byte_inj hc (toNat_lt_of_isMeta (decide_eq_true hd)) heq.symm]
  · intro hm
    exact ⟨c, hm, rfl⟩

theorem literalOfBody_encodeRune {c : Char} (h : isMeta c = false) (s : Bytes) :
    literalOfBody (encodeRune c.toNat ++ s) =
      (literalOfBody s).map (encodeRune c.toNat ++ ·) := by
  by_cases hc : c.toNat < 0x80
  · have hmeta : c.toNat.toUInt8 ∉ regexpMetachars := by
      rw [mem_regexpMetachars_iff hc, h]
      decide
    have hslash : c.toNat.toUInt8 ≠ byte '\\' := fun heq => hmeta (heq ▸ by decide)
    rw [encodeRune_ascii hc, singleton_append, literalOfBody.eq_def]
    simp only [hslash, hmeta]
    rfl
  · exact literalOfBody_high (fun b hb => le_of_mem_encodeRune (not_lt.1 hc) hb) s

theorem literalOfBody_escaped (d : Char) (s : Bytes) :
    literalOfBody (byte '\\' :: (encodeRune d.toNat ++ s)) =
      (literalOfBody s).map (encodeRune d.toNat ++ ·) := by
  obtain ⟨b, w, hw⟩ := exists_cons_of_ne_nil (encodeRune_ne_nil d.toNat)
  have hhigh : ∀ x ∈ w, 0x80 ≤ x.toNat := by
    intro x hx
    by_cases hd : d.toNat < 0x80
    · rw [encodeRune_ascii hd] at hw
      simp [(cons.inj hw).2.symm] at hx
    · exact le_of_mem_encodeRune (not_lt.1 hd) (hw ▸ .tail _ hx)
  rw [hw, cons_append, literalOfBody.eq_def]
  simp only [if_true]
  rw [literalOfBody_high hhigh, Option.map_map]
  rfl

theorem literalOfBody_utf8 (cs : List Char) :
    literalOfBody (utf8 cs) = (literalText cs).map utf8 := by
  have hslash : encodeRune '\\'.toNat = [byte '\\'] := by decide
  fun_induction literalText cs with
  | case1 => rfl
  | case2 => rfl
  | case3 d s ih =>
    rw [utf8_cons, utf8_cons, hslash, singleton_append, literalOfBody_escaped, ih,
      Option.map_map, Option.map_map]
    rfl
  | case4 c s hne hmeta =>
    have hascii := toNat_lt_of_isMeta hmeta
    have hbyte : c.toNat.toUInt8 ≠ byte '\\' := fun heq => hne (byte_inj hascii (by decide) heq)
    rw [utf8_cons, encodeRune_ascii hascii, singleton_append, literalOfBody.eq_def]
    simp only [hbyte, (mem_regexpMetachars_iff hascii).2 hmeta]
    rfl
  | case5 c s hne hmeta ih =>
    rw [utf8_cons, literalOfBody_encodeRune (by simpa using hmeta), ih, Option.map_map,
      Option.map_map]
    rfl

/-! ## Literal and prefix patterns -/

/-- The patterns the scanner reads as `regexp` does: no letter or digit is escaped, and no character
is the mark of an invalid byte. -/
def plainPattern (pattern : Bytes) : Bool :=
  isBanLiteral pattern ||
    (plainEscapes (chars pattern) && !(chars pattern).contains errorMark)

variable {t : Tables} {b : ActiveBan t} {obj : BanObject} {pattern : Bytes}
  {snap : BanSnapshot t} {re : Option Re}

theorem utf8_chars_of_compile {re : Re} (h : compile t pattern = some re) :
    utf8 (chars pattern) = pattern := by
  unfold compile at h
  split at h
  · cases h
  · rename_i cs hcs
    unfold decodePattern at hcs
    split_ifs at hcs with heq
    exact heq

theorem exists_literalText {cs : List Char} (h : (literalOfBody (utf8 cs)).isSome) :
    ∃ lit, literalText cs = some lit ∧ (literalOfBody (utf8 cs)).getD [] = utf8 lit := by
  rw [literalOfBody_utf8, Option.isSome_map] at h
  obtain ⟨lit, hlit⟩ := Option.isSome_iff_exists.1 h
  exact ⟨lit, hlit, by rw [literalOfBody_utf8, hlit]; rfl⟩

theorem chars_anchored {re : Re} (hc : compile t pattern = some re)
    (hhead : pattern.head? = some (byte '^')) (hplain : plainPattern pattern) :
    ∃ cs, utf8 cs = pattern.drop 1 ∧ compile t (utf8 ('^' :: cs)) = some re ∧ plainEscapes cs ∧
      errorMark ∉ cs := by
  have hmeta : isBanLiteral pattern = false := by
    rw [isBanLiteral, Bool.not_eq_false', any_eq_true]
    exact ⟨byte '^', mem_of_mem_head? hhead, by decide⟩
  have hutf8 := utf8_chars_of_compile hc
  obtain ⟨cs, hcs, hrest⟩ : ∃ cs, chars pattern = '^' :: cs ∧ utf8 cs = pattern.drop 1 := by
    cases pattern with
    | nil => cases hhead
    | cons b rest =>
      cases hhead
      exact utf8_eq_cons hutf8 (by decide)
  rw [← hutf8, hcs] at hc
  simp [plainPattern, hmeta, hcs, plainEscapes_cons] at hplain
  exact ⟨cs, hrest, hc, hplain.1, hplain.2.2⟩

theorem matchString_anchoredExact {re : Re} (hc : compile t pattern = some re)
    (hexact : isAnchoredExact pattern) (hplain : plainPattern pattern) (s : Bytes) :
    re.matchString s ↔ s = anchoredExact pattern := by
  unfold isAnchoredExact at hexact
  split_ifs at hexact with hshape
  obtain ⟨-, hhead, hlast⟩ : 3 ≤ pattern.length ∧ pattern.head? = some (byte '^') ∧
      pattern.getLast? = some (byte '$') := by
    rw [not_or, not_or, not_lt, not_not, not_not] at hshape
    exact hshape
  obtain ⟨cs, hrest, hc', hescapes, herr⟩ := chars_anchored hc hhead hplain
  have hlast' : (pattern.drop 1).getLast? = some (byte '$') := by
    rw [getLast?_drop, if_neg (by omega), hlast]
  have hconcat : utf8 cs = (pattern.drop 1).dropLast ++ [byte '$'] := by
    rw [hrest]
    exact (dropLast_append_getLast? _ hlast').symm
  obtain ⟨es, rfl, hbody⟩ := utf8_eq_concat hconcat (by decide)
  rw [← hbody] at hexact
  obtain ⟨lit, hlit, htext⟩ := exists_literalText hexact
  rw [anchoredExact, ← hbody, htext]
  refine matchString_exact hc' hlit (plainEscapes_of_append hlit hescapes) (fun hm => herr ?_) s
  exact mem_append_left _ (mem_of_mem_literalText hlit hm)

theorem prefix_of_matchString_anchored {re : Re} (hc : compile t pattern = some re)
    (hlead : isAnchoredPrefix pattern) (hplain : plainPattern pattern) {s : Bytes}
    (hmatch : re.matchString s) : anchoredPrefix pattern <+: s := by
  unfold isAnchoredPrefix at hlead
  split_ifs at hlead with hshape
  have hhead : pattern.head? = some (byte '^') := by
    rw [not_or, not_or, not_not] at hshape
    exact hshape.2.1
  obtain ⟨cs, hrest, hc', hescapes, herr⟩ := chars_anchored hc hhead hplain
  rw [← hrest] at hlead
  obtain ⟨lit, hlit, htext⟩ := exists_literalText hlead
  rw [anchoredPrefix, ← hrest, htext]
  exact prefix_of_matchString hc' hlit hescapes (fun hm => herr (mem_of_mem_literalText hlit hm))
    hmatch

/-! ## Predicates -/

variable {pattern lit value : Bytes}

theorem compiled_iff
    (h : compileBanPattern t pattern = some (re, lit)) :
    banPatternMatches t pattern value ↔
      (re.any fun re => !re.matchString value) = false ∧ (lit = [] ∨ value = lit) := by
  unfold compileBanPattern at h
  unfold banPatternMatches regexpMatches
  split_ifs at h with hnil hlit
  · cases h
    simp [hnil]
  · cases h
    simp [hnil, hlit]
  · obtain ⟨re', hre, heq⟩ := Option.map_eq_some_iff.1 h
    cases heq
    simp [hnil, hlit, hre]

/-- A predicate asks for the conditions of its expression, and for an object older than the
expression if that has a time. -/
theorem BanPredicate.holds_iff (p : BanPredicate t) (obj : BanObject) :
    p.holds obj ↔ (isZero p.expr.createdAt ∨ obj.storedAt ≤ p.expr.createdAt) ∧
      banPatternMatches t p.expr.hostRegex obj.host ∧
      banPatternMatches t p.expr.pathRegex obj.path ∧
      (p.expr.surrogateKey = [] ∨ p.expr.surrogateKey ∈ obj.surrogateKeys) := by
  rw [compiled_iff p.host_compiled, compiled_iff p.path_compiled]
  unfold BanPredicate.holds hasSurrogateKey
  split_ifs <;> simp_all
  grind

/-! ## Regular bans -/

def BanClass.usesPredicate : BanClass → Bool
  | .opaqueBan | .prefixHost | .prefixPath => true
  | .literalHost | .literalPath | .literalSurrogate => false

/-- The time of a ban has a value in nanoseconds, its pattern is read as `regexp` reads it, and if
its predicate is asked it was not re-issued later than the predicate's time. -/
@[mk_iff] structure RegularBan (b : ActiveBan t) : Prop where
  in_range : -2 ^ 63 < b.created ∧ b.created < 2 ^ 63
  plain : classifyBan b.pattern ≠ .opaqueBan →
    plainPattern b.pattern.hostRegex = true ∧ plainPattern b.pattern.pathRegex = true
  issued : (classifyBan b.pattern).usesPredicate = true →
    isZero b.pred.expr.createdAt = true ∨ b.created ≤ b.pred.expr.createdAt

instance (b : ActiveBan t) : Decidable (RegularBan b) :=
  decidable_of_iff' _ (regularBan_iff b)

def SameLiteral (a b : ActiveBan t) : Prop :=
  classifyBan a.pattern = classifyBan b.pattern ∧
    (classifyBan b.pattern = .literalHost ∧
        literalHostPattern a.pattern.hostRegex = literalHostPattern b.pattern.hostRegex ∨
      classifyBan b.pattern = .literalPath ∧
        literalPathPattern a.pattern.pathRegex = literalPathPattern b.pattern.pathRegex)

instance (a b : ActiveBan t) : Decidable (SameLiteral a b) := by
  unfold SameLiteral; infer_instance

/-- Of two bans that stand for one literal the later one in the list has the later time. -/
@[mk_iff] structure Regular (bans : List (ActiveBan t)) : Prop where
  each : ∀ b ∈ bans, RegularBan b
  shared : bans.Pairwise fun a b => SameLiteral a b → a.created ≤ b.created

instance (bans : List (ActiveBan t)) : Decidable (Regular bans) :=
  decidable_of_iff' _ (regular_iff bans)

section

variable (h : RegularBan b)
include h

theorem RegularBan.isZero_eq_false : isZero b.created = false := by
  obtain ⟨hlo, -⟩ := h.in_range
  rw [isZero, beq_eq_false_iff_ne, zeroTime]
  omega

theorem RegularBan.exemptNanos_eq : b.exemptNanos = b.created := by
  obtain ⟨hlo, hhi⟩ := h.in_range
  have hnano : unixNano b.created = b.created := by
    rw [unixNano, Int.bmod]
    split_ifs <;> omega
  rw [b.exempt_eq, encodeExempt, h.isZero_eq_false, hnano]
  rfl

theorem RegularBan.exemptNanos_ne : b.exemptNanos ≠ noExemption := by
  obtain ⟨hlo, -⟩ := h.in_range
  rw [h.exemptNanos_eq, noExemption]
  omega

theorem RegularBan.exemptAfter_eq : b.exemptAfter = b.created := by
  rw [ActiveBan.exemptAfter, decodeExempt, if_neg h.exemptNanos_ne, h.exemptNanos_eq]

theorem RegularBan.subjectTo_iff (obj : BanObject) :
    subjectTo obj b.exemptAfter ↔ obj.storedAt ≤ b.created := by
  rw [h.exemptAfter_eq, subjectTo, h.isZero_eq_false]
  simp

theorem RegularBan.subjectToNanos_iff (obj : BanObject) :
    subjectToNanos obj b.exemptNanos ↔ obj.storedAt ≤ b.created := by
  rw [subjectToNanos, beq_eq_false_iff_ne.2 h.exemptNanos_ne, h.exemptNanos_eq]
  simp

end

/-! ## Classes -/

theorem classifyPattern_cases (literal prefixed : BanClass) (pattern : Bytes) :
    classifyPattern literal prefixed pattern = literal ∧
        (isBanLiteral pattern ∨ isAnchoredExact pattern) ∨
      classifyPattern literal prefixed pattern = prefixed ∧ isAnchoredPrefix pattern ∨
      classifyPattern literal prefixed pattern = .opaqueBan := by
  unfold classifyPattern
  split_ifs with h1 h2
  · exact .inl ⟨rfl, by simpa using h1⟩
  · exact .inr (.inl ⟨rfl, h2⟩)
  · exact .inr (.inr rfl)

theorem classifyBan_spec {e : BanPattern} {c : BanClass} : classifyBan e = c →
    match c with
    | .literalHost => e.hostRegex ≠ [] ∧ e.pathRegex = [] ∧ e.surrogateKey = [] ∧
        (isBanLiteral e.hostRegex ∨ isAnchoredExact e.hostRegex)
    | .literalPath => e.hostRegex = [] ∧ e.pathRegex ≠ [] ∧ e.surrogateKey = [] ∧
        (isBanLiteral e.pathRegex ∨ isAnchoredExact e.pathRegex)
    | .prefixHost => e.hostRegex ≠ [] ∧ isAnchoredPrefix e.hostRegex
    | .prefixPath => e.pathRegex ≠ [] ∧ isAnchoredPrefix e.pathRegex
    | .literalSurrogate => e.hostRegex = [] ∧ e.pathRegex = [] ∧ e.surrogateKey ≠ []
    | .opaqueBan => True := by
  rintro rfl
  unfold classifyBan
  split_ifs with hhost hpath hkey
  · rcases classifyPattern_cases .literalHost .prefixHost e.hostRegex with h | h | h
    · rw [h.1]
      exact ⟨hhost.1, hhost.2.1, hhost.2.2, h.2⟩
    · rw [h.1]
      exact ⟨hhost.1, h.2⟩
    · rw [h]
      trivial
  · rcases classifyPattern_cases .literalPath .prefixPath e.pathRegex with h | h | h
    · rw [h.1]
      exact ⟨hpath.1, hpath.2.1, hpath.2.2, h.2⟩
    · rw [h.1]
      exact ⟨hpath.2.1, h.2⟩
    · rw [h]
      trivial
  · exact hkey
  · trivial

theorem isAnchored_of_isBanLiteral (h : isBanLiteral pattern) :
    pattern.head? ≠ some (byte '^') := by
  intro hhead
  rw [isBanLiteral, Bool.not_eq_true', any_eq_false] at h
  exact h _ (mem_of_mem_head? hhead) (by decide)

theorem compiled_regexp (hc : compileBanPattern t pattern = some (re, lit)) (hne : pattern ≠ [])
    (hlit : ¬ isBanLiteral pattern) :
    ∃ re', compile t pattern = some re' ∧
      ∀ value, banPatternMatches t pattern value ↔ re'.matchString value := by
  rw [compileBanPattern, if_neg hne, if_neg hlit] at hc
  obtain ⟨re', hre, -⟩ := Option.map_eq_some_iff.1 hc
  refine ⟨re', hre, fun value => ?_⟩
  rw [banPatternMatches, if_neg fun h => hlit h.2, regexpMatches, hre]
  simp [hne]

theorem banPatternMatches_literal
    (hc : compileBanPattern t pattern = some (re, lit)) (hne : pattern ≠ [])
    (hclass : isBanLiteral pattern ∨ isAnchoredExact pattern)
    (hplain : plainPattern pattern) :
    banPatternMatches t pattern value ↔ value = literalPattern pattern := by
  by_cases hlit : isBanLiteral pattern = true
  · have hexact : isAnchoredExact pattern = false := by
      rw [isAnchoredExact, if_pos (.inr (.inl (isAnchored_of_isBanLiteral hlit)))]
    simp [banPatternMatches, literalPattern, hlit, hexact, hne]
  · have hexact := hclass.resolve_left hlit
    obtain ⟨re', hre, hmatch⟩ := compiled_regexp hc hne hlit
    rw [hmatch, literalPattern, if_pos hexact, ← matchString_anchoredExact hre hexact hplain]

theorem prefix_of_banPatternMatches
    (hc : compileBanPattern t pattern = some (re, lit)) (hne : pattern ≠ [])
    (hclass : isAnchoredPrefix pattern) (hplain : plainPattern pattern)
    (h : banPatternMatches t pattern value) : anchoredPrefix pattern <+: value := by
  have hlit : ¬ isBanLiteral pattern = true := by
    intro hlit
    rw [isAnchoredPrefix, if_pos (.inr (.inl (isAnchored_of_isBanLiteral hlit)))] at hclass
    cases hclass
  obtain ⟨re', hre, hmatch⟩ := compiled_regexp hc hne hlit
  exact prefix_of_matchString_anchored hre hclass hplain ((hmatch value).1 h)

/-! ## One ban at a time -/

theorem covers_iff (h : RegularBan b) :
    Covers (banPatternMatches t) b obj ↔ subjectTo obj b.exemptAfter ∧
      banPatternMatches t b.pattern.hostRegex obj.host ∧
      banPatternMatches t b.pattern.pathRegex obj.path ∧
      (b.pattern.surrogateKey = [] ∨ b.pattern.surrogateKey ∈ obj.surrogateKeys) := by
  rw [h.subjectTo_iff, Covers]

theorem ActiveBan.host_compiled (b : ActiveBan t) :
    compileBanPattern t b.pattern.hostRegex = some (b.pred.hostRE, b.pred.hostLit) := by
  rw [b.pattern_eq]
  exact b.pred.host_compiled

theorem ActiveBan.path_compiled (b : ActiveBan t) :
    compileBanPattern t b.pattern.pathRegex = some (b.pred.pathRE, b.pred.pathLit) := by
  rw [b.pattern_eq]
  exact b.pred.path_compiled

@[simp] theorem banPatternMatches_nil (value : Bytes) : banPatternMatches t [] value = true := rfl

section

variable (h : RegularBan b)
include h

theorem covers_literalHost (hclass : classifyBan b.pattern = .literalHost) :
    Covers (banPatternMatches t) b obj ↔
      obj.host = literalHostPattern b.pattern.hostRegex ∧ subjectTo obj b.exemptAfter = true := by
  obtain ⟨hne, hpath, hkey, hlit⟩ := classifyBan_spec hclass
  have hplain := (h.plain (by rw [hclass]; decide)).1
  rw [covers_iff h, hpath, hkey, banPatternMatches_literal b.host_compiled hne hlit hplain,
    literalHostPattern, and_comm]
  simp

theorem covers_literalPath (hclass : classifyBan b.pattern = .literalPath) :
    Covers (banPatternMatches t) b obj ↔
      obj.path = literalPathPattern b.pattern.pathRegex ∧ subjectTo obj b.exemptAfter = true := by
  obtain ⟨hhost, hne, hkey, hlit⟩ := classifyBan_spec hclass
  have hplain := (h.plain (by rw [hclass]; decide)).2
  rw [covers_iff h, hhost, hkey, banPatternMatches_literal b.path_compiled hne hlit hplain,
    literalPathPattern, and_comm]
  simp

theorem covers_predicate (huses : (classifyBan b.pattern).usesPredicate) :
    Covers (banPatternMatches t) b obj ↔
      subjectTo obj b.exemptAfter ∧ b.pred.holds obj = true := by
  rw [covers_iff h, BanPredicate.holds_iff, b.pattern_eq, h.subjectTo_iff]
  refine and_congr_right fun hsubject => ?_
  have hissued : isZero b.pred.expr.createdAt ∨ obj.storedAt ≤ b.pred.expr.createdAt :=
    (h.issued huses).imp_right fun hle => le_trans hsubject hle
  simp only [hissued, true_and]
  rfl

def hostPrefixBan (b : ActiveBan t) : PrefixBan t :=
  ⟨b.exemptAfter, b.pred, anchoredPrefix b.pattern.hostRegex⟩

def pathPrefixBan (b : ActiveBan t) : PrefixBan t :=
  ⟨b.exemptAfter, b.pred, anchoredPrefix b.pattern.pathRegex⟩

theorem covers_prefix (huses : (classifyBan b.pattern).usesPredicate)
    {pattern value lit : Bytes} (hc : compileBanPattern t pattern = some (re, lit))
    (hclass : pattern ≠ [] ∧ isAnchoredPrefix pattern) (hplain : plainPattern pattern)
    (hcond : Covers (banPatternMatches t) b obj → banPatternMatches t pattern value) :
    Covers (banPatternMatches t) b obj ↔
      PrefixBan.applies ⟨b.exemptAfter, b.pred, anchoredPrefix pattern⟩ value obj = true := by
  simp only [PrefixBan.applies, Bool.and_eq_true, isPrefixOf_iff_prefix, and_assoc,
    ← covers_predicate h huses]
  refine ⟨fun hcov => ⟨?_, hcov⟩, And.right⟩
  exact prefix_of_banPatternMatches hc hclass.1 hclass.2 hplain (hcond hcov)

theorem covers_prefixHost (hclass : classifyBan b.pattern = .prefixHost) :
    Covers (banPatternMatches t) b obj ↔ (hostPrefixBan b).applies obj.host obj = true := by
  exact covers_prefix h (by rw [hclass]; rfl) b.host_compiled (classifyBan_spec hclass)
    (h.plain (by rw [hclass]; decide)).1 fun hcov => hcov.2.1

theorem covers_prefixPath (hclass : classifyBan b.pattern = .prefixPath) :
    Covers (banPatternMatches t) b obj ↔ (pathPrefixBan b).applies obj.path obj = true := by
  exact covers_prefix h (by rw [hclass]; rfl) b.path_compiled (classifyBan_spec hclass)
    (h.plain (by rw [hclass]; decide)).2 fun hcov => hcov.2.2.1

end

/-! ## The tables -/

/-- The snapshot holds the bans of a list, as far as an object is concerned. The maps say whether a
ban for a key applies, not which. -/
structure Represents (obj : BanObject) (snap : BanSnapshot t) (l : List (ActiveBan t)) : Prop where
  hosts : ∀ k, (snap.hosts.lookup k).any (subjectTo obj) = true ↔
    ∃ b ∈ l, classifyBan b.pattern = .literalHost ∧
      k = literalHostPattern b.pattern.hostRegex ∧ subjectTo obj b.exemptAfter = true
  paths : ∀ k, (snap.paths.lookup k).any (subjectTo obj) = true ↔
    ∃ b ∈ l, classifyBan b.pattern = .literalPath ∧
      k = literalPathPattern b.pattern.pathRegex ∧ subjectTo obj b.exemptAfter = true
  hostPrefixes : snap.hostPrefixes =
    (l.filter fun b => classifyBan b.pattern = .prefixHost).map hostPrefixBan
  pathPrefixes : snap.pathPrefixes =
    (l.filter fun b => classifyBan b.pattern = .prefixPath).map pathPrefixBan
  opaqueBans : snap.opaqueBans = (l.filter fun b => classifyBan b.pattern = .opaqueBan ∨
    classifyBan b.pattern = .literalSurrogate).map fun b => ⟨b.exemptAfter, b.pred⟩

theorem represents_nil (obj : BanObject) : Represents obj ({} : BanSnapshot t) [] :=
  ⟨by simp, by simp, rfl, rfl, rfl⟩

theorem lookup_cons_any {m : List (Bytes × Int)} {key : Bytes} {e : Int} {ok : Int → Bool}
    {P : Bytes → Prop} (h : ∀ k, (m.lookup k).any ok ↔ P k) (hold : P key → ok e)
    (k : Bytes) :
    (((key, e) :: m).lookup k).any ok ↔ P k ∨ k = key ∧ ok e = true := by
  rw [lookup_cons]
  by_cases hk : k = key
  · subst hk
    simp only [beq_self_eq_true, true_and]
    exact ⟨.inr, fun h => h.elim hold id⟩
  · have hne : (k == key) = false := by simpa using hk
    simp [hne, hk, h]

theorem Represents.add {l : List (ActiveBan t)} (h : Represents obj snap l) (b : ActiveBan t)
    (hshared : ∀ a ∈ l, SameLiteral a b → subjectTo obj a.exemptAfter →
      subjectTo obj b.exemptAfter) : Represents obj (snap.add b) (l ++ [b]) := by
  obtain ⟨hhosts, hpaths, hhostPrefixes, hpathPrefixes, hopaque⟩ := h
  unfold BanSnapshot.add
  cases hclass : classifyBan b.pattern with
  | literalHost =>
    refine ⟨fun k => ?_, fun k => ?_, ?_, ?_, ?_⟩
    · rw [lookup_cons_any hhosts]
      · simp [hclass]
      · rintro ⟨a, ha, haclass, hkey, hsubject⟩
        exact hshared a ha ⟨haclass.trans hclass.symm, .inl ⟨hclass, hkey.symm⟩⟩ hsubject
    all_goals simp [*]
  | literalPath =>
    refine ⟨fun k => ?_, fun k => ?_, ?_, ?_, ?_⟩
    case refine_2 =>
      rw [lookup_cons_any hpaths]
      · simp [hclass]
      · rintro ⟨a, ha, haclass, hkey, hsubject⟩
        exact hshared a ha ⟨haclass.trans hclass.symm, .inr ⟨hclass, hkey.symm⟩⟩ hsubject
    all_goals simp [*]
  | _ =>
    refine ⟨fun k => ?_, fun k => ?_, ?_, ?_, ?_⟩
    all_goals simp [hostPrefixBan, pathPrefixBan, *]

theorem represents_foldl {l l' : List (ActiveBan t)} (h : Represents obj snap l)
    (hshared : (l ++ l').Pairwise fun a b => SameLiteral a b →
      subjectTo obj a.exemptAfter → subjectTo obj b.exemptAfter) :
    Represents obj (l'.foldl BanSnapshot.add snap) (l ++ l') := by
  induction l' generalizing snap l with
  | nil => simpa using h
  | cons b l' ih =>
    have hsplit : l ++ b :: l' = l ++ [b] ++ l' := by simp
    rw [hsplit] at hshared ⊢
    refine ih (h.add b fun a ha => ?_) hshared
    exact (pairwise_append.1 (pairwise_append.1 hshared).1).2.2 a ha b (by simp)

theorem compileBanSnapshot_eq (bans : List (ActiveBan t)) (now ttl : Int) :
    compileBanSnapshot bans now ttl =
      (bans.filter fun b => now - b.created < ttl).foldl BanSnapshot.add {} := by
  rw [foldl_filter]
  refine foldl_ext _ _ _ fun snap b _ => ?_
  by_cases hlive : now - b.created < ttl
  · simp [hlive]
  · simp [hlive]

theorem Represents.matches_iff {l : List (ActiveBan t)} (h : Represents obj snap l)
    (hreg : ∀ b ∈ l, RegularBan b) (hrest : ∀ b ∈ l, classifyBan b.pattern ≠ .literalSurrogate) :
    snap.matches obj ↔ ∃ b ∈ l, Covers (banPatternMatches t) b obj := by
  simp only [BanSnapshot.matches, BanSnapshot.literalMatch, BanSnapshot.prefixMatch,
    Bool.or_eq_true, h.hosts, h.paths, h.hostPrefixes, h.pathPrefixes, h.opaqueBans, any_map,
    any_filter, any_eq_true, Function.comp, Bool.and_eq_true, decide_eq_true_eq]
  constructor
  · rintro (((⟨b, hb, hclass, hcov⟩ | ⟨b, hb, hclass, hcov⟩) |
      (⟨b, hb, hclass, hcov⟩ | ⟨b, hb, hclass, hcov⟩)) | ⟨b, hb, hclass, hcov⟩)
    · exact ⟨b, hb, (covers_literalHost (hreg b hb) hclass).2 hcov⟩
    · exact ⟨b, hb, (covers_literalPath (hreg b hb) hclass).2 hcov⟩
    · exact ⟨b, hb, (covers_prefixHost (hreg b hb) hclass).2 hcov⟩
    · exact ⟨b, hb, (covers_prefixPath (hreg b hb) hclass).2 hcov⟩
    · have hclass' := hclass.resolve_right (hrest b hb)
      exact ⟨b, hb, (covers_predicate (hreg b hb) (by rw [hclass']; rfl)).2 hcov⟩
  · intro ⟨b, hb, hcov⟩
    have hb' := hreg b hb
    cases hclass : classifyBan b.pattern with
    | literalHost => exact .inl (.inl (.inl ⟨b, hb, hclass, (covers_literalHost hb' hclass).1 hcov⟩))
    | literalPath => exact .inl (.inl (.inr ⟨b, hb, hclass, (covers_literalPath hb' hclass).1 hcov⟩))
    | prefixHost => exact .inl (.inr (.inl ⟨b, hb, hclass, (covers_prefixHost hb' hclass).1 hcov⟩))
    | prefixPath => exact .inl (.inr (.inr ⟨b, hb, hclass, (covers_prefixPath hb' hclass).1 hcov⟩))
    | opaqueBan =>
      exact .inr ⟨b, hb, .inl hclass, (covers_predicate hb' (by rw [hclass]; rfl)).1 hcov⟩
    | literalSurrogate => exact absurd hclass (hrest b hb)

theorem Regular.sublist {l l' : List (ActiveBan t)} (h : Regular l) (hsub : l'.Sublist l) :
    Regular l' :=
  ⟨fun b hb => h.each b (hsub.subset hb), h.shared.sublist hsub⟩

theorem compileBanSnapshot_matches_iff {bans : List (ActiveBan t)} {now ttl : Int}
    (hreg : Regular bans) (hrest : ∀ b ∈ bans, classifyBan b.pattern ≠ .literalSurrogate)
    (obj : BanObject) : (compileBanSnapshot bans now ttl).matches obj ↔
      ∃ b ∈ bans, now - b.created < ttl ∧ Covers (banPatternMatches t) b obj := by
  have hlive := hreg.sublist (filter_sublist (p := fun b => now - b.created < ttl))
  have hshared : (bans.filter fun b => now - b.created < ttl).Pairwise fun a b => SameLiteral a b →
      subjectTo obj a.exemptAfter → subjectTo obj b.exemptAfter = true := by
    refine hlive.shared.imp_of_mem fun {a b} ha hb hle hsame => ?_
    rw [(hlive.each a ha).subjectTo_iff, (hlive.each b hb).subjectTo_iff]
    exact fun hsubject => le_trans hsubject (hle hsame)
  rw [compileBanSnapshot_eq, (represents_foldl (represents_nil obj) hshared).matches_iff hlive.each
    fun b hb => hrest b (mem_filter.1 hb).1]
  simp [and_assoc]

end Bouine.Storage
