import Bouine.Lib.WhiteSpace
import Bouine.Cache.ResolverPair

/-! # Entity tags

`etagMatch` (`internal/cache/conditional.go`) cuts If-None-Match at every comma and compares the
pieces without their marks. The grammar allows a comma inside a tag; the file says for which lists
the cut finds the tags.
-/

namespace Bouine.Cache

open Lib Lib.Path Header
open List hiding splitOn

def isETagByte (c : UInt8) : Bool := 0x21 ≤ c && c != byte '"' && c != 0x7F

/-- An entity tag: whether it is weak, and the text between its quotes. -/
structure EntityTag where
  weak : Bool
  text : Bytes
  valid : ∀ c ∈ text, isETagByte c = true

structure ListedTag where
  before : Bytes
  tag : EntityTag
  after : Bytes
  blank : (∀ c ∈ before, isOWS c = true) ∧ ∀ c ∈ after, isOWS c = true

inductive IfNoneMatch where
  | any
  | tags (first : ListedTag) (rest : List ListedTag)

namespace EntityTag

def quoted (t : EntityTag) : Bytes := byte '"' :: (t.text ++ [byte '"'])

def render (t : EntityTag) : Bytes := if t.weak then ascii "W/" ++ t.quoted else t.quoted

end EntityTag

def ListedTag.render (l : ListedTag) : Bytes := l.before ++ l.tag.render ++ l.after

namespace IfNoneMatch

def listed : IfNoneMatch → List ListedTag
  | any => []
  | tags first rest => first :: rest

def render : IfNoneMatch → Bytes
  | any => ascii "*"
  | tags first rest => List.intercalate [byte ','] ((first :: rest).map ListedTag.render)

def texts (v : IfNoneMatch) : List Bytes := v.listed.map fun l => l.tag.text

def Matches (v : IfNoneMatch) (stored : EntityTag) : Prop := v = any ∨ stored.text ∈ v.texts

end IfNoneMatch

/-! ## A tag without its marks -/

/-- `normETag` on a piece without white space. -/
def unmarked (s : Bytes) : Bytes :=
  ((if (ascii "W/").isPrefixOf s || (ascii "w/").isPrefixOf s then s.drop 2 else s).dropWhile
    (· == byte '"')).rdropWhile (· == byte '"')

theorem normETag_eq (s : Bytes) : normETag s = unmarked (trimSpace s) := rfl

namespace EntityTag

variable (t : EntityTag)

theorem quote_notMem : byte '"' ∉ t.text := fun h => by
  simpa [isETagByte] using t.valid _ h

theorem unquote :
    ((t.quoted).dropWhile (· == byte '"')).rdropWhile (· == byte '"') = t.text := by
  have hquote := t.quote_notMem
  rw [quoted, dropWhile_cons_of_pos (by simp)]
  cases htext : t.text with
  | nil => rw [nil_append, dropWhile_cons_of_pos (by simp)]; rfl
  | cons c s =>
    rw [htext, mem_cons, not_or] at hquote
    rw [cons_append, dropWhile_cons_of_neg (by simpa using Ne.symm hquote.1), ← cons_append,
      rdropWhile_concat_pos _ _ _ (by simp), rdropWhile_eq_self_iff.2]
    intro hne hlast
    exact t.quote_notMem (htext ▸ (beq_iff_eq.1 hlast) ▸ getLast_mem hne)

theorem unmarked_render : unmarked t.render = t.text := by
  unfold unmarked render
  cases t.weak with
  | true => exact t.unquote
  | false => exact t.unquote

theorem trimSpace_render : trimSpace t.render = t.render := by
  have hquote : ∀ w ∈ spaces, byte '"' ∉ w := by decide
  have hweak : ∀ w ∈ spaces, byte 'W' ∉ w := by decide
  unfold render
  split_ifs
  · exact trimSpace_of_ends hweak hquote (ascii "/" ++ byte '"' :: t.text)
  · exact trimSpace_of_ends hquote hquote t.text

theorem normETag_render : normETag t.render = t.text := by
  rw [normETag_eq, trimSpace_render, unmarked_render]

end EntityTag

/-! ## The pieces of a list -/

/-- What is compared with the stored tag for one of the list: its text without a comma, else what is
left of the parts between commas. -/
def ListedTag.compared (l : ListedTag) : List Bytes := (splitOn (byte ',') l.tag.render).map normETag

theorem ListedTag.map_normETag_splitOn (l : ListedTag) :
    (splitOn (byte ',') l.render).map normETag = l.compared := by
  have hcomma : ∀ w ∈ spaces, byte ',' ∉ w := by decide
  have hfactor (ps : List Bytes) : ps.map normETag = (ps.map trimSpace).map unmarked := by
    rw [map_map]
    rfl
  have hblank : trimSpace l.render = l.tag.render := by
    rw [render, trimSpace_append_ows l.blank.2, trimSpace_ows_append l.blank.1,
      l.tag.trimSpace_render]
  rw [compared, hfactor, hfactor, ← map_trimSpace_splitOn hcomma l.render, hblank]

theorem ListedTag.compared_of_no_comma {l : ListedTag} (h : byte ',' ∉ l.tag.text) :
    l.compared = [l.tag.text] := by
  have hrender : byte ',' ∉ l.tag.render := by
    have hmarks : byte ',' ∉ ascii "W/" ∧ byte ',' ≠ byte '"' := by decide
    unfold EntityTag.render EntityTag.quoted
    split_ifs <;> simp [hmarks, h]
  rw [compared, splitOn_of_notMem hrender, map_singleton, l.tag.normETag_render]

theorem ListedTag.comma_notMem_compared (l : ListedTag) : ∀ s ∈ l.compared, byte ',' ∉ s := by
  intro s hs hmem
  obtain ⟨p, hp, rfl⟩ := mem_map.1 hs
  refine notMem_of_mem_splitOn hp (mem_of_mem_trimSpace ?_)
  have hdrop : (if (ascii "W/").isPrefixOf (trimSpace p) || (ascii "w/").isPrefixOf (trimSpace p) then
      (trimSpace p).drop 2 else trimSpace p) ⊆ trimSpace p := by
    split_ifs
    · exact drop_subset _ _
    · exact fun _ => id
  exact hdrop ((dropWhile_subset _) (( rdropWhile_prefix _ _).subset hmem))

theorem ListedTag.quote_mem_render (l : ListedTag) : byte '"' ∈ l.render := by
  unfold render EntityTag.render EntityTag.quoted
  split_ifs <;> simp

theorem etagMatch_render (v : IfNoneMatch) (stored : EntityTag) :
    etagMatch v.render stored.render ↔
      v = .any ∨ ∃ l ∈ v.listed, stored.text ∈ l.compared := by
  rw [etagMatch, stored.normETag_render]
  cases v with
  | any => simp [IfNoneMatch.render]
  | tags first rest =>
    have hpieces : (splitOn (byte ',') (IfNoneMatch.tags first rest).render).map normETag =
        (first :: rest).flatMap ListedTag.compared := by
      rw [IfNoneMatch.render, splitOn_intercalate_flatMap _ (by simp), map_flatMap, flatMap_map]
      exact flatMap_congr fun l _ => l.map_normETag_splitOn
    have hstar : (IfNoneMatch.tags first rest).render ≠ ascii "*" := by
      intro h
      have hquote : byte '"' ∈ (IfNoneMatch.tags first rest).render := by
        cases rest <;> simp [IfNoneMatch.render, first.quote_mem_render]
      rw [h] at hquote
      exact absurd hquote (by decide)
    have hany : ((splitOn (byte ',') (IfNoneMatch.tags first rest).render).any
        fun tag => normETag tag == stored.text) ↔
        stored.text ∈ (first :: rest).flatMap ListedTag.compared := by
      rw [← hpieces, mem_map, any_eq_true]
      simp
    rw [Bool.or_eq_true, hany, mem_flatMap, beq_iff_eq]
    simp [hstar, IfNoneMatch.listed]

/-! ## Which lists are read -/

/-- A stored text with a comma is not in the list; one without is in it, or is not what a part of a
tag with a comma is taken for. -/
def IfNoneMatch.Reads (v : IfNoneMatch) (stored : EntityTag) : Prop :=
  (byte ',' ∈ stored.text → stored.text ∉ v.texts) ∧
    (byte ',' ∉ stored.text → stored.text ∈ v.texts ∨
      ∀ l ∈ v.listed, byte ',' ∈ l.tag.text → stored.text ∉ l.compared)

theorem etagMatch_weak_iff (v : IfNoneMatch) (stored : EntityTag) :
    (etagMatch v.render stored.render = true ↔ v.Matches stored) ↔ v.Reads stored := by
  rw [etagMatch_render]
  by_cases hany : v = .any
  · simp [hany, IfNoneMatch.Matches, IfNoneMatch.Reads, IfNoneMatch.texts, IfNoneMatch.listed]
  simp only [IfNoneMatch.Matches, hany]
  by_cases hcomma : byte ',' ∈ stored.text
  · have hnone : ¬ ∃ l ∈ v.listed, stored.text ∈ l.compared := by
      rintro ⟨l, -, hl⟩
      exact l.comma_notMem_compared _ hl hcomma
    simp [IfNoneMatch.Reads, hcomma, hnone]
  · have hfound : (∃ l ∈ v.listed, stored.text ∈ l.compared) ↔ stored.text ∈ v.texts ∨
        ∃ l ∈ v.listed, byte ',' ∈ l.tag.text ∧ stored.text ∈ l.compared := by
      constructor
      · rintro ⟨l, hl, hmem⟩
        by_cases hl' : byte ',' ∈ l.tag.text
        · exact .inr ⟨l, hl, hl', hmem⟩
        · rw [ListedTag.compared_of_no_comma hl', mem_singleton] at hmem
          exact .inl (mem_map.2 ⟨l, hl, hmem.symm⟩)
      · rintro (hmem | ⟨l, hl, -, hmem⟩)
        · obtain ⟨l, hl, heq⟩ := mem_map.1 hmem
          refine ⟨l, hl, ?_⟩
          rw [ListedTag.compared_of_no_comma (heq ▸ hcomma), heq]
          exact mem_singleton_self _
        · exact ⟨l, hl, hmem⟩
    rw [hfound]
    simp only [IfNoneMatch.Reads, hcomma]
    by_cases hin : stored.text ∈ v.texts
    · simp [hin]
    · simp [hin]

def EntityTag.alone (t : EntityTag) : IfNoneMatch := .tags ⟨[], t, [], by simp, by simp⟩ []

def commaTag : EntityTag := ⟨false, ascii "a,b", by decide⟩

def plainTag : EntityTag := ⟨false, ascii "a", by decide⟩

/-- A client that has `"a,b"` is told that it has `"a"`, and not so of `"a,b"`. -/
theorem comma_tag_misread :
    etagMatch commaTag.alone.render plainTag.render = true ∧
      ¬ commaTag.alone.Matches plainTag ∧
      etagMatch commaTag.alone.render commaTag.render = false ∧
      commaTag.alone.Matches commaTag := by
  refine ⟨by decide, ?_, by decide, .inr (.head _)⟩
  rintro (h | h)
  · cases h
  · exact absurd h (by decide)

end Bouine.Cache
