import Bouine.Cache.HopByHop
import Bouine.Cache.ResponseRewrites

/-! # Stored fields on the serving paths

A stored object is served by `serveObject`, by the fast path or in parts by `serveRange`
(`internal/cache/handler.go`, `fastheader2.go`, `fastpath.go`, `range.go`), and each copies the
stored header in its own way. The file says which stored lines each sends; from that follow when
fields that are not to be served are left out, and when two paths send the same.
-/

namespace Bouine.Cache

open Lib Header List

/-! ## The paths -/

inductive HitPath where
  /-- the head of the fast path -/
  | fast (stale : Bool) (date age cap connection : Bytes)
  /-- `serveObject` -/
  | slow (result : CacheResult) (age cap : Bytes)
  /-- `serveRange` of one range -/
  | range (stale : Bool) (cap contentRange length : Bytes)
  /-- `serveRange` of several -/
  | ranges (stale : Bool) (cap contentType : Bytes)

namespace HitPath

variable (r : Responder) (o : ServedObject)

def answer : HitPath → Answer
  | fast stale date age cap connection => .fastHit o stale date age cap connection
  | slow result age cap => .object o result age cap
  | range stale cap contentRange length => .partialContent o stale cap contentRange length
  | ranges stale cap contentType => .multipart o stale cap contentType

def header (p : HitPath) : Raw := (p.answer o).header r

def when (c : Bool) (names : List Bytes) : List Bytes := if c then names else []

def own : HitPath → List Bytes
  | fast stale .. =>
    [Field.age, Field.xCache, Field.connection] ++ when stale [Field.warning] ++
      when r.sync [Field.cdnCacheControl] ++ when (!o.obj.header.has Field.date) [Field.date]
  | slow result age cap =>
    [Field.age, Field.xCache] ++ when (result == .stale) [Field.warning] ++
      when r.sync [Field.cdnCacheControl] ++ when (!o.obj.header.has Field.date) [Field.date] ++
      ((Answer.object o result age cap).rewrite r).set.map Prod.fst
  | range stale .. =>
    [Field.xCache, Field.contentRange, Field.contentLength] ++ when stale [Field.warning] ++
      when r.sync [Field.cdnCacheControl]
  | ranges stale .. =>
    [Field.xCache, Field.contentType] ++ when stale [Field.warning] ++
      when r.sync [Field.cdnCacheControl]

/-- `response.header_remove`, on the path that applies it. -/
def removed : HitPath → List Bytes
  | slow result age cap => ((Answer.object o result age cap).rewrite r).remove
  | _ => []

def passes (p : HitPath) (name : Bytes) : Bool :=
  match p with
  | fast .. => !skipStaticHeader o.obj r.sync name
  | slow .. =>
    !(Field.notServed.contains name || (connectionListed o.obj).contains name ||
      (o.obj.hasNoCacheFields && (noCacheFieldNames o.obj.cacheControl).contains name) ||
      (r.sync && Field.cdcFamily.contains name) || (p.removed r o).contains name)
  | range .. | ranges .. =>
    !([Field.contentLength, Field.date, Field.transferEncoding].contains name ||
      (r.sync && Field.cdcFamily.contains name))

/-- Which stored lines of a field are left in a header that holds one of each, cookies apart. -/
def oneLine (name : Bytes) (vs : List Bytes) : List Bytes :=
  if name = setCookie then vs else if name = Field.date then vs.head?.toList else vs.getLast?.toList

def kept : HitPath → Bytes → List Bytes → List Bytes
  | fast .., _, vs => vs
  | slow .., name, vs | range .., name, vs | ranges .., name, vs => oneLine name vs

end HitPath

/-! ## The lines of the drafts -/

section

variable {name : Bytes}

theorem peekAll_setIf_of_ne {key : Bytes} (c : Bool) (h : c → name ≠ key) (hdr : Raw)
    (value : Bytes) : (setIf c key value hdr).peekAll name = hdr.peekAll name := by
  unfold setIf
  split_ifs with hc
  · exact Raw.peekAll_set_of_ne (h hc) hdr value
  · rfl

theorem peekAll_setAll (ls : List Line) (name : Bytes) :
    (setAll ls).peekAll name =
      if name = Field.date ∨ name = Field.transferEncoding then []
      else if name = setCookie then valuesOf name ls
      else (valuesOf name ls).getLast?.toList := by
  induction ls using reverseRecOn with
  | nil => simp [setAll, Raw.peekAll, valuesOf]
  | append_singleton ls l ih =>
    have hlast : setAll (ls ++ [l]) = responseSet.set (setAll ls) l := by simp [setAll, responseSet]
    rw [hlast, responseSet.peekAll_set, valuesOf_append, ih]
    by_cases hl : name = l.name
    · subst hl
      rw [if_pos rfl, responseSet]
      dsimp only
      split_ifs
      · rfl
      · simp [valuesOf]
      · cases (valuesOf l.name ls).getLast? <;> simp [valuesOf]
    · rw [if_neg hl, valuesOf_singleton_of_ne hl, append_nil]

theorem peekAll_writeToFastHTTP (m : Map) (hdate : name ≠ Field.date) :
    (writeToFastHTTP m).peekAll name =
      if name ∈ Field.notServed then [] else HitPath.oneLine name (valuesOf name m.entries) := by
  have hencoding : Field.transferEncoding ∈ Field.notServed := by decide
  rw [writeToFastHTTP, peekAll_setAll,
    valuesOf_filter name fun n => !(Field.date :: Field.notServed).contains n]
  by_cases hskip : name ∈ Field.notServed
  · simp [hskip]
  · have hother : name ≠ Field.transferEncoding := fun heq => hskip (heq ▸ hencoding)
    simp [hdate, hother, hskip, HitPath.oneLine]

theorem peekAll_dated (o : Stored) (hdate : name = Field.date → o.header.has Field.date) :
    (setIf (o.hasDate || o.header.has Field.date) Field.date (o.header.get Field.date)
      (writeToFastHTTP o.header)).peekAll name =
        if name ∈ Field.notServed then [] else HitPath.oneLine name (valuesOf name o.header.entries) := by
  by_cases hname : name = Field.date
  · have hkeys : Field.date ∉ Field.notServed ∧ Field.date ≠ setCookie ∧
        isCanonical Field.date = true := by decide
    obtain ⟨hserved, hcookie, hcanonical⟩ := hkeys
    have hnone : (writeToFastHTTP o.header).peekAll Field.date = [] := by
      rw [writeToFastHTTP, peekAll_setAll, if_pos (.inl rfl)]
    have hstored := (Map.has_of_isCanonical hcanonical).1 (hdate hname)
    obtain ⟨v, vs, hvs⟩ := exists_cons_of_ne_nil hstored
    subst hname
    rw [hdate rfl, Bool.or_true, setIf, if_pos rfl, Raw.peekAll_set, if_pos rfl, hnone, if_neg hserved,
      HitPath.oneLine, if_neg hcookie, if_pos rfl, Map.get_of_isCanonical hcanonical, Map.first?, hvs]
    rfl
  · rw [peekAll_setIf_of_ne _ fun _ => hname, peekAll_writeToFastHTTP _ hname]

theorem peekAll_fastHeader (o : Stored) (hdate : name = Field.date → o.header.has Field.date) :
    (fastHeader o).peekAll name =
      if Field.notServed.contains name || (connectionListed o).contains name ||
          (o.hasNoCacheFields && (noCacheFieldNames o.cacheControl).contains name) then []
      else HitPath.oneLine name (valuesOf name o.header.entries) := by
  unfold fastHeader
  cases o.hasNoCacheFields with
  | false =>
    simp only [Bool.false_eq_true, if_false, Rewrite.peekAll_foldl_del, peekAll_dated o hdate]
    by_cases hskip : name ∈ Field.notServed <;> by_cases hlisted : name ∈ connectionListed o <;>
      simp [hskip]
  | true =>
    simp only [if_true, Rewrite.peekAll_foldl_del, peekAll_dated o hdate]
    by_cases hskip : name ∈ Field.notServed <;> by_cases hlisted : name ∈ connectionListed o <;>
      by_cases hcache : name ∈ noCacheFieldNames o.cacheControl <;> simp [hskip, hcache]

theorem peekAll_capped_of_ne (r : Responder) (cap : Bytes) (hdr : Raw)
    (h : r.sync → name ≠ Field.cdnCacheControl) :
    (capped r cap hdr).peekAll name =
      if r.sync && Field.cdcFamily.contains name then [] else hdr.peekAll name := by
  unfold capped
  by_cases hsync : r.sync = true
  · rw [if_pos hsync, Raw.peekAll_set_of_ne (h hsync), Rewrite.peekAll_foldl_del, hsync]
    by_cases hname : name ∈ Field.cdcFamily <;> simp
  · simp [hsync]

theorem peekAll_rangeHeader (r : Responder) (o : ServedObject) (stale : Bool) (cap : Bytes)
    (hcache : name ≠ Field.xCache) (hstale : stale → name ≠ Field.warning)
    (hsync : r.sync → name ≠ Field.cdnCacheControl) :
    (rangeHeader r o.obj stale cap).peekAll name =
      if [Field.contentLength, Field.date, Field.transferEncoding].contains name ||
          (r.sync && Field.cdcFamily.contains name) then []
      else HitPath.oneLine name (valuesOf name o.obj.header.entries) := by
  unfold rangeHeader
  rw [peekAll_setIf_of_ne _ hsync, Raw.peekAll_set_of_ne hcache, peekAll_setIf_of_ne _ hstale,
    peekAll_setAll, valuesOf_filter name fun n => !(n = Field.contentLength ||
      (r.sync && Field.cdcFamily.contains n))]
  by_cases hlength : name = Field.contentLength
  · simp [hlength]
  by_cases hdate : name = Field.date
  · simp [hdate]
  by_cases hencoding : name = Field.transferEncoding
  · simp [hencoding]
  cases hfamily : r.sync && Field.cdcFamily.contains name
  · simp only [HitPath.oneLine]
    simp [hlength, hdate]
  · simp

end

/-! ## The stored lines of a path -/

section

variable (r : Responder) (o : ServedObject) {name : Bytes}

@[simp] theorem mem_when {c : Bool} {names : List Bytes} :
    name ∈ HitPath.when c names ↔ c ∧ name ∈ names := by
  unfold HitPath.when
  split_ifs with hc <;> simp [hc]

theorem peekAll_fast {stale : Bool} {date age cap connection : Bytes}
    (h : name ∉ HitPath.own r o (.fast stale date age cap connection)) :
    (composeResponse r o.obj stale date age cap connection).peekAll name =
      if !skipStaticHeader o.obj r.sync name then valuesOf name o.obj.header.entries else [] := by
  simp only [HitPath.own, mem_append, mem_cons, not_mem_nil, or_false, mem_when,
    not_or, not_and] at h
  obtain ⟨⟨⟨⟨hage, hcache, hconn⟩, hstale⟩, hsync⟩, hdate⟩ := h
  have hown {c : Prop} [Decidable c] {key value : Bytes} (hc : c → name ≠ key) :
      valuesOf name (if c then [⟨key, value⟩] else []) = [] := by
    split_ifs with hc'
    · exact valuesOf_singleton_of_ne (hc hc')
    · rfl
  have hdate' : (!o.obj.hasDate && !o.obj.header.has Field.date) → name ≠ Field.date := by
    intro hnone
    exact hdate (by simpa using (Bool.and_eq_true_iff.1 hnone).2)
  rw [Raw.peekAll, composeResponse]
  simp only [valuesOf_append]
  rw [hown hdate', hown hstale, hown hsync, valuesOf_singleton_of_ne hconn,
    valuesOf_filter name fun n => !skipStaticHeader o.obj r.sync n]
  simp [valuesOf, Ne.symm hage, Ne.symm hcache]

theorem peekAll_slow {result : CacheResult} {age cap : Bytes}
    (h : name ∉ HitPath.own r o (.slow result age cap)) :
    ((Answer.object o result age cap).draft r).peekAll name =
      if Field.notServed.contains name || (connectionListed o.obj).contains name ||
          (o.obj.hasNoCacheFields && (noCacheFieldNames o.obj.cacheControl).contains name) ||
          (r.sync && Field.cdcFamily.contains name) then []
      else HitPath.oneLine name (valuesOf name o.obj.header.entries) := by
  simp only [HitPath.own, mem_append, mem_cons, not_mem_nil, or_false, mem_when,
    not_or, not_and] at h
  obtain ⟨⟨⟨⟨⟨hage, hcache⟩, hstale⟩, hsync⟩, hdate⟩, -⟩ := h
  have hstored : name = Field.date → o.obj.header.has Field.date = true := by
    intro hname
    by_contra hnone
    exact hdate (by simpa using hnone) hname
  rw [Answer.draft, peekAll_capped_of_ne r cap _ hsync, peekAll_setIf_of_ne _ hstale,
    Raw.peekAll_set_of_ne hcache, Raw.peekAll_set_of_ne hage, peekAll_fastHeader o.obj hstored]
  cases r.sync && Field.cdcFamily.contains name <;> simp

theorem peekAll_header (p : HitPath) (h : name ∉ p.own r o) :
    (p.header r o).peekAll name =
      if p.passes r o name then p.kept name (valuesOf name o.obj.header.entries) else [] := by
  cases p with
  | fast stale date age cap connection => exact peekAll_fast r o h
  | slow result age cap =>
    have hset : name ∉ ((Answer.object o result age cap).rewrite r).set.map Prod.fst :=
      fun hmem => h (mem_append_right _ hmem)
    change (applyResponseRewrites ((Answer.object o result age cap).rewrite r)
      ((Answer.object o result age cap).draft r)).peekAll name = _
    rw [applyResponseRewrites, Rewrite.peekAll_apply, Rewrite.lines_of_not_set _ _ hset, Rewrite.kept,
      peekAll_slow r o h, HitPath.passes, HitPath.removed, HitPath.kept]
    by_cases hremoved : name ∈ ((Answer.object o result age cap).rewrite r).remove
    · simp [hremoved]
    · rw [if_neg hremoved]
      simp only [← contains_iff_mem, Bool.not_eq_true] at hremoved
      rw [hremoved, Bool.or_false]
      cases Field.notServed.contains name || (connectionListed o.obj).contains name ||
          (o.obj.hasNoCacheFields && (noCacheFieldNames o.obj.cacheControl).contains name) ||
          (r.sync && Field.cdcFamily.contains name) <;> rfl
  | range stale cap contentRange length =>
    simp only [HitPath.own, mem_append, mem_cons, not_mem_nil, or_false, mem_when,
      not_or, not_and] at h
    obtain ⟨⟨⟨hcache, hrange, hlength⟩, hstale⟩, hsync⟩ := h
    change (((rangeHeader r o.obj stale cap).set _ _).set _ _).peekAll name = _
    rw [Raw.peekAll_set_of_ne hlength, Raw.peekAll_set_of_ne hrange,
      peekAll_rangeHeader r o stale cap hcache hstale hsync, HitPath.passes, HitPath.kept]
    cases [Field.contentLength, Field.date, Field.transferEncoding].contains name ||
      (r.sync && Field.cdcFamily.contains name) <;> rfl
  | ranges stale cap contentType =>
    simp only [HitPath.own, mem_append, mem_cons, not_mem_nil, or_false, mem_when,
      not_or, not_and] at h
    obtain ⟨⟨⟨hcache, htype⟩, hstale⟩, hsync⟩ := h
    change ((rangeHeader r o.obj stale cap).set _ _).peekAll name = _
    rw [Raw.peekAll_set_of_ne htype, peekAll_rangeHeader r o stale cap hcache hstale hsync,
      HitPath.passes, HitPath.kept]
    cases [Field.contentLength, Field.date, Field.transferEncoding].contains name ||
      (r.sync && Field.cdcFamily.contains name) <;> rfl

theorem oneLine_eq_nil_iff {vs : List Bytes} : HitPath.oneLine name vs = [] ↔ vs = [] := by
  unfold HitPath.oneLine
  cases vs with
  | nil => simp
  | cons v vs =>
    split_ifs
    · rfl
    · simp
    · simp

theorem kept_eq_nil_iff (p : HitPath) {vs : List Bytes} : p.kept name vs = [] ↔ vs = [] := by
  cases p with
  | fast stale date age cap connection => rfl
  | slow result age cap => exact oneLine_eq_nil_iff
  | range stale cap contentRange length => exact oneLine_eq_nil_iff
  | ranges stale cap contentType => exact oneLine_eq_nil_iff

end

/-! ## Fields that are not to be served -/

/-- The fields that the stored lines of Cache-Control name in a `no-cache`. -/
def noCacheOptions (ls : List Line) : List Bytes :=
  ((valuesOf Field.cacheControl ls).flatMap tokens).flatMap fun (key, val) =>
    if equalFold key (ascii "no-cache") then listMembers val else []

/-- The field is the cache's own, or the stored response lists it in `no-cache` or in Connection. -/
def Withheld (o : Stored) (name : Bytes) : Prop :=
  ∃ n ∈ [ascii "X-Bouine-Path", ascii "X-Bouine-Host"] ++ noCacheOptions o.header.entries ++
      connectionOptions o.header.entries,
    equalFold name n = true

instance (o : Stored) (name : Bytes) : Decidable (Withheld o name) :=
  inferInstanceAs (Decidable (∃ n ∈ _, _))

def HitPath.Strips (r : Responder) (o : ServedObject) (p : HitPath) : Prop :=
  ∀ name, Withheld o.obj name → name ∉ p.own r o → (p.header r o).peekAll name = []

/-- That is so exactly if every stored line of such a field is among what the path leaves out or
writes itself. -/
theorem strips_iff (r : Responder) (o : ServedObject) (p : HitPath) :
    p.Strips r o ↔ ∀ l ∈ o.obj.header.entries, Withheld o.obj l.name →
      l.name ∈ p.own r o ∨ p.passes r o l.name = false := by
  constructor
  · intro h l hl hname
    by_cases hown : l.name ∈ p.own r o
    · exact .inl hown
    · have hnone := h l.name hname hown
      rw [peekAll_header r o p hown] at hnone
      cases hpass : p.passes r o l.name with
      | false => exact .inr rfl
      | true =>
        rw [if_pos hpass, kept_eq_nil_iff] at hnone
        exact absurd rfl (Map.valuesOf_eq_nil_iff.1 hnone l hl)
  · intro h name hname hown
    rw [peekAll_header r o p hown]
    split_ifs with hpass
    · rw [kept_eq_nil_iff, Map.valuesOf_eq_nil_iff]
      rintro l hl rfl
      obtain hmem | hskip := h l hl hname
      · exact hown hmem
      · rw [hpass] at hskip
        cases hskip
    · rfl

/-! ## The same lines on two paths -/

section

variable (r : Responder) (o : ServedObject)

structure BothHits where
  stale : Bool
  date : Bytes
  age : Bytes
  cap : Bytes
  connection : Bytes

namespace BothHits

variable (b : BothHits)

def fast : HitPath := .fast b.stale b.date b.age b.cap b.connection

def slow : HitPath := .slow (if b.stale then .stale else .hit) b.age b.cap

/-- The fields that are made for the response: by one of the paths, or, like the length on the slow
one, by the server. -/
def synthesised : List Bytes :=
  [Field.age, Field.xCache, Field.date, Field.contentLength] ++ b.fast.own r o ++ b.slow.own r o

def SameLines : Prop :=
  ((b.fast.header r o).lines.filter fun l => l.name ∉ b.synthesised r o).Perm
    ((b.slow.header r o).lines.filter fun l => l.name ∉ b.synthesised r o)

end BothHits

/-- The field is left out on both paths, whatever the object says of `no-cache` fields. -/
def LeftOut (name : Bytes) : Prop :=
  name ∈ Field.notServed ∨ name ∈ connectionListed o.obj ∨ (r.sync = true ∧ name ∈ Field.cdcFamily)

variable {r o} {b : BothHits} {name : Bytes}

theorem passes_fast_iff (hcache : name ≠ Field.xCache) :
    b.fast.passes r o name ↔
      ¬ LeftOut r o name ∧ ¬ (name ∈ noCacheFieldNames o.obj.cacheControl ∨ name = Field.warning) := by
  simp only [BothHits.fast, HitPath.passes, skipStaticHeader, LeftOut, Bool.not_eq_true',
    ← Bool.not_eq_true, Bool.or_eq_true, Bool.and_eq_true, contains_iff_mem, mem_cons,
    not_mem_nil, or_false, hcache, false_or, not_or]
  constructor
  · rintro ⟨⟨⟨⟨hserved, hcontrol⟩, hlisted⟩, hwarning⟩, hfamily⟩
    exact ⟨⟨hserved, hlisted, hfamily⟩, hcontrol, hwarning⟩
  · rintro ⟨⟨hserved, hlisted, hfamily⟩, hcontrol, hwarning⟩
    exact ⟨⟨⟨⟨hserved, hcontrol⟩, hlisted⟩, hwarning⟩, hfamily⟩

theorem passes_slow_iff :
    b.slow.passes r o name ↔
      ¬ LeftOut r o name ∧
        ¬ (o.obj.hasNoCacheFields ∧ name ∈ noCacheFieldNames o.obj.cacheControl ∨
          name ∈ b.slow.removed r o) := by
  simp only [BothHits.slow, HitPath.passes, LeftOut, Bool.not_eq_true', ← Bool.not_eq_true,
    Bool.or_eq_true, Bool.and_eq_true, contains_iff_mem, not_or]
  constructor
  · rintro ⟨⟨⟨⟨hserved, hlisted⟩, hcontrol⟩, hfamily⟩, hremoved⟩
    exact ⟨⟨hserved, hlisted, hfamily⟩, hcontrol, hremoved⟩
  · rintro ⟨⟨hserved, hlisted, hfamily⟩, hcontrol, hremoved⟩
    exact ⟨⟨⟨⟨hserved, hlisted⟩, hcontrol⟩, hfamily⟩, hremoved⟩

theorem perm_oneLine_iff {vs : List Bytes} (hvs : vs ≠ []) (hdate : name ≠ Field.date) :
    vs.Perm (HitPath.oneLine name vs) ↔ name = setCookie ∨ vs.length = 1 := by
  unfold HitPath.oneLine
  by_cases hcookie : name = setCookie
  · simp [hcookie]
  rw [if_neg hcookie, if_neg hdate, or_iff_right hcookie]
  constructor
  · intro hperm
    rw [hperm.length_eq, getLast?_eq_some_getLast hvs]
    rfl
  · intro hlength
    obtain ⟨v, rfl⟩ := length_eq_one_iff.1 hlength
    rfl

/-- A stored field that neither path leaves out is dropped by both, or by none and has one line. -/
def ServedAlike (r : Responder) (o : ServedObject) (b : BothHits) (name : Bytes) : Prop :=
  (name ∈ noCacheFieldNames o.obj.cacheControl ∨ name = Field.warning ↔
    o.obj.hasNoCacheFields = true ∧ name ∈ noCacheFieldNames o.obj.cacheControl ∨
      name ∈ b.slow.removed r o) ∧
  (¬ (name ∈ noCacheFieldNames o.obj.cacheControl ∨ name = Field.warning) →
    name = setCookie ∨ (valuesOf name o.obj.header.entries).length = 1)

theorem perm_lines_iff (hname : name ∉ b.synthesised r o)
    (hstored : valuesOf name o.obj.header.entries ≠ []) :
    ((b.fast.header r o).peekAll name).Perm ((b.slow.header r o).peekAll name) ↔
      (¬ LeftOut r o name → ServedAlike r o b name) := by
  simp only [BothHits.synthesised, mem_append, mem_cons, not_or] at hname
  obtain ⟨⟨⟨-, hcache, hdate, -⟩, hfast⟩, hslow⟩ := hname
  have hone : HitPath.oneLine name (valuesOf name o.obj.header.entries) ≠ [] := fun hnil =>
    hstored (oneLine_eq_nil_iff.1 hnil)
  have hpasses : ((b.fast.header r o).peekAll name).Perm ((b.slow.header r o).peekAll name) ↔
      (b.fast.passes r o name ↔ b.slow.passes r o name) ∧
        (b.fast.passes r o name →
          name = setCookie ∨ (valuesOf name o.obj.header.entries).length = 1) := by
    rw [peekAll_header r o _ hfast, peekAll_header r o _ hslow]
    change (if _ then valuesOf name o.obj.header.entries else []).Perm
      (if _ then HitPath.oneLine name (valuesOf name o.obj.header.entries) else []) ↔ _
    cases b.fast.passes r o name <;> cases b.slow.passes r o name
    · simp
    · simpa using hone
    · simpa using hstored
    · simpa using perm_oneLine_iff hstored hdate
  rw [hpasses, passes_fast_iff hcache, passes_slow_iff, ServedAlike]
  by_cases hout : LeftOut r o name
  · simp [hout]
  · simp only [hout, not_false_eq_true, true_and, true_imp_iff, not_iff_not]

end

/-- Both paths send the same stored lines exactly if, of the stored fields they do not leave out,
the fast path drops those the slow one drops, and every other has a single line or is a cookie. -/
theorem same_lines_iff (r : Responder) (o : ServedObject) (b : BothHits) :
    b.SameLines r o ↔
      ∀ l ∈ o.obj.header.entries, l.name ∉ b.synthesised r o → ¬ LeftOut r o l.name →
        ServedAlike r o b l.name := by
  rw [BothHits.SameLines, perm_filter_iff]
  constructor
  · intro h l hl hname
    have hstored : valuesOf l.name o.obj.header.entries ≠ [] := fun hnil =>
      Map.valuesOf_eq_nil_iff.1 hnil l hl rfl
    exact (perm_lines_iff hname hstored).1 (h l.name hname)
  · intro h name hname
    by_cases hstored : valuesOf name o.obj.header.entries = []
    · obtain ⟨hfast, hslow⟩ : (b.fast.header r o).peekAll name = [] ∧ (b.slow.header r o).peekAll name = [] := by
        simp only [BothHits.synthesised, mem_append, not_or] at hname
        rw [peekAll_header r o b.fast hname.1.2, peekAll_header r o b.slow hname.2, hstored,
          (kept_eq_nil_iff b.fast).2 rfl, (kept_eq_nil_iff b.slow).2 rfl, ite_self, ite_self]
        exact ⟨rfl, rfl⟩
      rw [← Raw.peekAll, ← Raw.peekAll, hfast, hslow]
    · obtain ⟨v, hv⟩ := exists_mem_of_ne_nil _ hstored
      exact (perm_lines_iff hname hstored).2 (h ⟨name, v⟩ (Header.mem_valuesOf.1 hv) hname)

/-! ## Objects on which the paths differ -/

def plainRoute : Responder where
  rewrite := ⟨[], []⟩
  interned := by simp
  sync := false
  copyNormalizes := true
  transport := fun _ => []

def listingObject : ServedObject where
  obj := { poweredObject.obj with
    header := ⟨[⟨ascii "X-Bouine-Path", ascii "/account"⟩, ⟨ascii "X-Bouine-Host", ascii "internal"⟩,
      ⟨Field.cacheControl, ascii "max-age=60, no-cache=\"X-Session\""⟩,
      ⟨ascii "X-Session", ascii "42"⟩, ⟨Field.connection, ascii "X-Hop"⟩, ⟨ascii "X-Hop", ascii "1"⟩]⟩
    cacheControl := ascii "max-age=60, no-cache=\"X-Session\""
    hasConnectionList := true
    hasNoCacheFields := true }
  canonical := by decide

/-- A request for part of the object is sent all four fields; the other paths send none. -/
theorem withheld_fields_in_range :
    ([ascii "X-Bouine-Path", ascii "X-Bouine-Host", ascii "X-Session", ascii "X-Hop"].all fun name =>
      decide (Withheld listingObject.obj name) &&
      ((HitPath.range false [] (ascii "bytes 0-0/4") (ascii "1")).header plainRoute
        listingObject).peekAll name != [] &&
      ((HitPath.fast false [] (ascii "0") [] (ascii "keep-alive")).header plainRoute
        listingObject).peekAll name == [] &&
      ((HitPath.slow .hit (ascii "0") []).header plainRoute listingObject).peekAll name == []) =
      true := by
  decide

def linkedObject : ServedObject where
  obj := { poweredObject.obj with
    header := ⟨[⟨ascii "Link", ascii "</a.css>; rel=preload"⟩,
      ⟨ascii "Link", ascii "</b.css>; rel=preload"⟩]⟩ }
  canonical := by decide

/-- The slow path loses the first of them. -/
theorem link_lost_on_slow_path :
    ((HitPath.fast false [] (ascii "0") [] (ascii "keep-alive")).header plainRoute
      linkedObject).peekAll (ascii "Link") = [ascii "</a.css>; rel=preload", ascii "</b.css>; rel=preload"] ∧
    ((HitPath.slow .hit (ascii "0") []).header plainRoute linkedObject).peekAll (ascii "Link") =
      [ascii "</b.css>; rel=preload"] ∧
    ¬ (⟨false, [], ascii "0", [], ascii "keep-alive"⟩ : BothHits).SameLines plainRoute linkedObject := by
  refine ⟨by decide, by decide, ?_⟩
  rw [BothHits.SameLines]
  decide

end Bouine.Cache
