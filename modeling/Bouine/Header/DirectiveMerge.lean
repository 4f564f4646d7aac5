import Bouine.Header.Map
import Bouine.Header.Directives

/-! # Directives of joined lines

The lines of a field are joined before they are parsed (`Map.GetAll`). If no line ends inside a
quoted string, the directives of the joined value are those of the lines put together, so neither
their order nor their distribution over lines matters.
-/

namespace Bouine.Header

open Lib List

open ScanState

variable {s : Bytes} {c : UInt8}

theorem tokens_joined {a : Bytes} (ha : ¬ LeavesOpen a) (hc : isCCDelimiter c) (b : Bytes) :
    tokens (a ++ c :: b) = tokens a ++ tokens b :=
  (tokens_join a).resolve_right (fun h => ha h.1) c b hc

/-! ## Merging -/

def mergeDur (x y : Int × Bool) : Int × Bool :=
  if !y.2 then x else if !x.2 then y else (max x.1 y.1, true)

def mergeFields (x y : Bytes) : Bytes := if y = [] then x else y

def Directives.merge (d e : Directives) : Directives where
  noCacheFields := mergeFields d.noCacheFields e.noCacheFields
  maxAge := (mergeDur (d.maxAge, d.maxAgeSet) (e.maxAge, e.maxAgeSet)).1
  staleIfError := (mergeDur (d.staleIfError, d.staleIfErrorSet) (e.staleIfError, e.staleIfErrorSet)).1
  staleWhileRevalid := (mergeDur (d.staleWhileRevalid, d.staleWhileRevalidSet)
    (e.staleWhileRevalid, e.staleWhileRevalidSet)).1
  maxStale := (mergeDur (d.maxStale, d.maxStaleSet) (e.maxStale, e.maxStaleSet)).1
  minFresh := (mergeDur (d.minFresh, d.minFreshSet) (e.minFresh, e.minFreshSet)).1
  sMaxAge := (mergeDur (d.sMaxAge, d.sMaxAgeSet) (e.sMaxAge, e.sMaxAgeSet)).1
  maxAgeSet := d.maxAgeSet || e.maxAgeSet
  sMaxAgeSet := d.sMaxAgeSet || e.sMaxAgeSet
  minFreshSet := d.minFreshSet || e.minFreshSet
  maxStaleSet := d.maxStaleSet || e.maxStaleSet
  staleWhileRevalidSet := d.staleWhileRevalidSet || e.staleWhileRevalidSet
  staleIfErrorSet := d.staleIfErrorSet || e.staleIfErrorSet
  mustRevalidate := d.mustRevalidate || e.mustRevalidate
  proxyRevalidate := d.proxyRevalidate || e.proxyRevalidate
  immutable := d.immutable || e.immutable
  noTransform := d.noTransform || e.noTransform
  onlyIfCached := d.onlyIfCached || e.onlyIfCached
  mustUnderstand := d.mustUnderstand || e.mustUnderstand
  noStore := d.noStore || e.noStore
  isPublic := d.isPublic || e.isPublic
  isPrivate := d.isPrivate || e.isPrivate
  noCache := d.noCache || e.noCache

theorem mergeDur_snd (x y : Int × Bool) : (mergeDur x y).2 = (x.2 || y.2) := by
  obtain ⟨x, xs⟩ := x
  obtain ⟨y, ys⟩ := y
  cases xs <;> cases ys <;> rfl

theorem mergeDur_assoc (x y z : Int × Bool) :
    mergeDur (mergeDur x y) z = mergeDur x (mergeDur y z) := by
  obtain ⟨x, xs⟩ := x
  obtain ⟨y, ys⟩ := y
  obtain ⟨z, zs⟩ := z
  cases xs <;> cases ys <;> cases zs <;> simp [mergeDur]

theorem mergeDur_comm {x y : Int} {xs ys : Bool} (hx : xs = false → x = 0) (hy : ys = false → y = 0) :
    mergeDur (x, xs) (y, ys) = mergeDur (y, ys) (x, xs) := by
  cases xs <;> cases ys <;> simp_all [mergeDur, max_comm]

theorem parseDurStr_mergeDur (x y : Int × Bool) (val : Bytes) :
    parseDurStr (mergeDur x y).1 (mergeDur x y).2 val = mergeDur x (parseDurStr y.1 y.2 val) := by
  unfold parseDurStr
  cases parseIntNoAlloc val with
  | none => rfl
  | some n =>
    obtain ⟨x, xs⟩ := x
    obtain ⟨y, ys⟩ := y
    cases xs <;> cases ys <;> simp [mergeDur] <;> grind

theorem read_mergeDur {f : DurDirective} {x : Int × Bool} (hbare : ∀ dur ∈ f.bare, x.1 ≤ dur)
    (y : Int × Bool) (val : Bytes) : f.read (mergeDur x y) val = mergeDur x (f.read y val) := by
  unfold DurDirective.read
  cases hf : f.bare with
  | none => exact parseDurStr_mergeDur x y val
  | some dur =>
    split_ifs
    · have hle := hbare dur hf
      obtain ⟨x, xs⟩ := x
      cases xs
      · rfl
      · simpa [mergeDur] using hle
    · exact parseDurStr_mergeDur x y val

def AtMostBare (d : Directives) : Prop := ∀ f ∈ durDirectives, ∀ dur ∈ f.bare, (f.get d).1 ≤ dur

theorem boolDirectives_merge (d e : Directives) :
    ∀ b ∈ boolDirectives, b.2 (d.merge e) = d.merge (b.2 e) := by
  simp [boolDirectives, Directives.merge]

theorem durDirectives_merge (d e : Directives) : ∀ f ∈ durDirectives,
    f.get (d.merge e) = mergeDur (f.get d) (f.get e) ∧
      ∀ v, f.put (mergeDur (f.get d) v) (d.merge e) = d.merge (f.put v e) := by
  simp [durDirectives, Directives.merge, Prod.ext_iff, mergeDur_snd]

theorem applyCCDirective_merge {d : Directives} (hd : AtMostBare d) (e : Directives)
    (token : Bytes × Bytes) :
    applyCCDirective (d.merge e) token = d.merge (applyCCDirective e token) := by
  obtain ⟨key, val⟩ := token
  unfold applyCCDirective applyBoolDirective applyDurDirective
  dsimp only
  split_ifs with hfields
  · simp [Directives.merge, mergeFields, hfields.2]
  · cases hfind : boolDirectives.find? fun e => equalFold key e.1 with
    | some b => exact boolDirectives_merge d e b (mem_of_find?_eq_some hfind)
    | none =>
      cases hfind : durDirectives.find? fun f => equalFold key f.name with
      | none => rfl
      | some f =>
        have hmem := mem_of_find?_eq_some hfind
        obtain ⟨hget, hput⟩ := durDirectives_merge d e f hmem
        simp [hget, read_mergeDur (hd f hmem), hput]

theorem merge_empty (d : Directives) : d.merge {} = d := by
  simp [Directives.merge, mergeDur, mergeFields]

/-- Nor can a number exceed the greatest duration, which a bare `max-stale` stands for. -/
theorem atMostBare_parseCacheControl (s : Bytes) : AtMostBare (parseCacheControl s) := by
  have hwrap (n : Int) : wrap64 n ≤ 2 ^ 63 - 1 := by
    have := Int.bmod_lt (x := n) (m := 2 ^ 64) (by decide)
    unfold wrap64
    omega
  have hread (d : Directives) (val : Bytes) (hd : d.maxStale ≤ 2 ^ 63 - 1) :
      (parseDurStr d.maxStale d.maxStaleSet val).1 ≤ 2 ^ 63 - 1 := by
    unfold parseDurStr
    cases parseIntNoAlloc val with
    | none => exact hd
    | some n =>
      dsimp only
      split_ifs
      · exact hwrap _
      · exact hd
  have hiff (d : Directives) : AtMostBare d ↔ d.maxStale ≤ 2 ^ 63 - 1 := by
    simp [AtMostBare, durDirectives]
  refine (hiff _).2 (parseCacheControl_induction (P := fun d => d.maxStale ≤ 2 ^ 63 - 1)
    (fun d val h => h) (fun d h => ?_) (fun d val h => ?_) (by decide) s)
  · simpa [boolDirectives] using h
  · have hstale := hread d val h
    simp only [durDirectives, forall_mem_cons]
    refine ⟨h, h, h, ?_, h, h, by simp⟩
    unfold DurDirective.read
    split_ifs
    · exact le_rfl
    · exact hstale

theorem parseCacheControl_joined {a : Bytes} (ha : ¬ LeavesOpen a) (b : Bytes) :
    parseCacheControl (a ++ comma ++ b) = (parseCacheControl a).merge (parseCacheControl b) := by
  have hfold (ts : List (Bytes × Bytes)) (e : Directives) :
      ts.foldl applyCCDirective ((parseCacheControl a).merge e) =
        (parseCacheControl a).merge (ts.foldl applyCCDirective e) := by
    induction ts generalizing e with
    | nil => rfl
    | cons t ts ih =>
      rw [foldl_cons, applyCCDirective_merge (atMostBare_parseCacheControl a), ih, foldl_cons]
  have htokens : tokens (a ++ comma ++ b) = tokens a ++ tokens b := by
    rw [append_assoc]
    show tokens (a ++ byte ',' :: (byte ' ' :: b)) = _
    rw [tokens_joined ha (by decide), tokens_cons_delimiter (by decide)]
  have hempty := hfold (tokens b) {}
  rw [merge_empty] at hempty
  rw [parseCacheControl, htokens, foldl_append]
  exact hempty

/-! ## Order and lines -/

/-- Everything but the list of fields of `no-cache`, of which the last counts. -/
def Directives.withoutFields (d : Directives) : Directives := { d with noCacheFields := [] }

def UnsetZero (d : Directives) : Prop := ∀ f ∈ durDirectives, (f.get d).2 = false → (f.get d).1 = 0

theorem unsetZero_iff (d : Directives) : UnsetZero d ↔
    (d.maxAgeSet = false → d.maxAge = 0) ∧ (d.sMaxAgeSet = false → d.sMaxAge = 0) ∧
      (d.minFreshSet = false → d.minFresh = 0) ∧ (d.maxStaleSet = false → d.maxStale = 0) ∧
      (d.staleWhileRevalidSet = false → d.staleWhileRevalid = 0) ∧
      (d.staleIfErrorSet = false → d.staleIfError = 0) := by
  simp [UnsetZero, durDirectives]

theorem DurDirective.read_unset (f : DurDirective) {cur : Int × Bool} (h : cur.2 = false → cur.1 = 0)
    (val : Bytes) : (f.read cur val).2 = false → (f.read cur val).1 = 0 := by
  have hparse : (parseDurStr cur.1 cur.2 val).2 = false → (parseDurStr cur.1 cur.2 val).1 = 0 := by
    unfold parseDurStr
    cases parseIntNoAlloc val with
    | none => exact h
    | some n =>
      dsimp only
      split_ifs
      · exact fun hset => absurd hset (by decide)
      · exact h
  unfold DurDirective.read
  cases f.bare with
  | none => exact hparse
  | some dur =>
    split_ifs
    · exact fun hset => absurd hset (by decide)
    · exact hparse

theorem unsetZero_parseCacheControl (s : Bytes) : UnsetZero (parseCacheControl s) := by
  refine parseCacheControl_induction (fun d val h => (unsetZero_iff _).2 ((unsetZero_iff d).1 h))
    (fun d h b hb => ?_) (fun d val h f hf => ?_) (by simp [unsetZero_iff]) s
  · rw [unsetZero_iff] at h ⊢
    revert b
    simpa [boolDirectives] using h
  · have hread := f.read_unset (h f hf) val
    rw [unsetZero_iff] at h ⊢
    revert f
    simp [durDirectives]
    grind

theorem mergeDur_pair (x y : Int) (xs ys : Bool) :
    ((mergeDur (x, xs) (y, ys)).1, xs || ys) = mergeDur (x, xs) (y, ys) :=
  Prod.ext rfl (mergeDur_snd (x, xs) (y, ys)).symm

theorem merge_assoc (d e f : Directives) : (d.merge e).merge f = d.merge (e.merge f) := by
  have hfields (x y z : Bytes) : mergeFields (mergeFields x y) z = mergeFields x (mergeFields y z) := by
    unfold mergeFields
    split_ifs <;> simp_all
  simp [Directives.merge, mergeDur_pair, mergeDur_assoc, hfields, Bool.or_assoc]

theorem empty_merge {d : Directives} (hd : UnsetZero d) : Directives.merge {} d = d := by
  have hdur {x : Int} {xs : Bool} (hx : xs = false → x = 0) : (mergeDur (0, false) (x, xs)).1 = x := by
    cases xs
    · exact (hx rfl).symm
    · rfl
  have hfields (x : Bytes) : mergeFields [] x = x := by
    unfold mergeFields
    split_ifs with hx
    · exact hx.symm
    · rfl
  obtain ⟨h1, h2, h3, h4, h5, h6⟩ := (unsetZero_iff d).1 hd
  simp [Directives.merge, hdur h1, hdur h2, hdur h3, hdur h4, hdur h5, hdur h6,
    hfields]

theorem merge_comm {d e : Directives} (hd : UnsetZero d) (he : UnsetZero e) :
    d.withoutFields.merge e.withoutFields = e.withoutFields.merge d.withoutFields := by
  obtain ⟨h1, h2, h3, h4, h5, h6⟩ := (unsetZero_iff d).1 hd
  obtain ⟨g1, g2, g3, g4, g5, g6⟩ := (unsetZero_iff e).1 he
  simp [Directives.merge, Directives.withoutFields, mergeDur_comm h1 g1, mergeDur_comm h2 g2,
    mergeDur_comm h3 g3, mergeDur_comm h4 g4, mergeDur_comm h5 g5, mergeDur_comm h6 g6,
    Bool.or_comm]

theorem withoutFields_merge (d e : Directives) :
    (d.merge e).withoutFields = d.withoutFields.merge e.withoutFields := by
  simp [Directives.withoutFields, Directives.merge, mergeFields]

def mergeAll (ds : List Directives) : Directives := ds.foldr Directives.merge {}

theorem mergeAll_append {xs : List Directives} (hxs : ∀ d ∈ xs, UnsetZero d) {ys : List Directives}
    (hys : ∀ d ∈ ys, UnsetZero d) : mergeAll (xs ++ ys) = (mergeAll xs).merge (mergeAll ys) := by
  induction xs with
  | nil =>
    cases ys with
    | nil => rfl
    | cons y ys =>
      show y.merge _ = Directives.merge {} (y.merge _)
      rw [← merge_assoc, empty_merge (hys y (.head _))]
  | cons x xs ih =>
    rw [forall_mem_cons] at hxs
    show x.merge (mergeAll (xs ++ ys)) = (x.merge (mergeAll xs)).merge (mergeAll ys)
    rw [ih hxs.2, merge_assoc]

theorem withoutFields_mergeAll (ds : List Directives) :
    (mergeAll ds).withoutFields = mergeAll (ds.map Directives.withoutFields) := by
  induction ds with
  | nil => rfl
  | cons d ds ih =>
    show (d.merge (mergeAll ds)).withoutFields = d.withoutFields.merge (mergeAll (ds.map _))
    rw [withoutFields_merge, ih]

theorem mergeAll_perm {ds es : List Directives} (hds : ∀ d ∈ ds, UnsetZero d) (h : ds.Perm es) :
    (mergeAll ds).withoutFields = (mergeAll es).withoutFields := by
  rw [withoutFields_mergeAll, withoutFields_mergeAll]
  refine (h.map _).foldr_eq' (fun x hx y hy z => ?_) _
  obtain ⟨d, hd, rfl⟩ := mem_map.1 hx
  obtain ⟨e, he, rfl⟩ := mem_map.1 hy
  rw [← merge_assoc, merge_comm (hds e he) (hds d hd), merge_assoc]

theorem not_leavesOpen_joined {ds : List Bytes} (hds : ∀ d ∈ ds, ¬ LeavesOpen d) :
    ¬ LeavesOpen (List.intercalate comma ds) := by
  induction ds with
  | nil => exact ScanState.noConfusion
  | cons a ds ih =>
    rw [forall_mem_cons] at hds
    cases ds with
    | nil => simpa using hds.1
    | cons b ds =>
      have hcomma : next (run outside a) (byte ',') = outside := next_delimiter hds.1 (by decide)
      have hrest := ih hds.2
      unfold LeavesOpen at hrest ⊢
      rw [intercalate_cons_cons, run_append, run_append]
      show run (next (next (run outside a) (byte ',')) (byte ' ')) _ ≠ quoted
      rwa [hcomma]

theorem parseCacheControl_lines {ds : List Bytes} (hds : ∀ d ∈ ds, ¬ LeavesOpen d) :
    parseCacheControl (List.intercalate comma ds) = mergeAll (ds.map parseCacheControl) := by
  induction ds with
  | nil => rfl
  | cons a ds ih =>
    rw [forall_mem_cons] at hds
    cases ds with
    | nil =>
      show parseCacheControl (intercalate comma [a]) = (parseCacheControl a).merge {}
      rw [intercalate_singleton, merge_empty]
    | cons b ds =>
      rw [intercalate_cons_cons, parseCacheControl_joined hds.1, ih hds.2]
      rfl

theorem parseCacheControl_split {lines : List (List Bytes)}
    (hclosed : ∀ d ∈ lines.flatten, ¬ LeavesOpen d) :
    parseCacheControl (List.intercalate comma (lines.map (List.intercalate comma))) =
      mergeAll (lines.flatten.map parseCacheControl) := by
  have hline (l) (hl : l ∈ lines) : ∀ d ∈ l, ¬ LeavesOpen d := fun d hd =>
    hclosed d (mem_flatten.2 ⟨l, hl, hd⟩)
  rw [parseCacheControl_lines (by simpa using fun l hl => not_leavesOpen_joined (hline l hl))]
  clear hclosed
  have hunset (l : List Bytes) : ∀ d ∈ l.map parseCacheControl, UnsetZero d :=
    forall_mem_map.2 fun a _ => unsetZero_parseCacheControl a
  induction lines with
  | nil => rfl
  | cons l lines ih =>
    rw [flatten_cons, map_append, mergeAll_append (hunset _) (hunset _),
      ← parseCacheControl_lines (hline l (.head _)),
      ← ih fun l hl => hline l (.tail _ hl)]
    rfl

/-- Joining values that leave no quote open is merging their directives. So two headers whose lines
hold the same directives, in any order and on any lines, have the same flags and durations. -/
theorem joined_directives_merge :
    (∀ a b, ¬ LeavesOpen a →
      parseCacheControl (a ++ ascii ", " ++ b) = (parseCacheControl a).merge (parseCacheControl b)) ∧
    ∀ (key : Bytes) (h h' : Map) (lines lines' : List (List Bytes)), isCanonical key = true →
      valuesOf key h.entries = lines.map (List.intercalate (ascii ", ")) →
      valuesOf key h'.entries = lines'.map (List.intercalate (ascii ", ")) →
      (∀ d ∈ lines.flatten, ¬ LeavesOpen d) → lines.flatten.Perm lines'.flatten →
      (parseCacheControl (h.getAll key)).withoutFields =
        (parseCacheControl (h'.getAll key)).withoutFields := by
  refine ⟨fun a b ha => parseCacheControl_joined ha b, ?_⟩
  intro key h h' lines lines' hkey hlines hlines' hclosed hperm
  have hclosed' : ∀ d ∈ lines'.flatten, ¬ LeavesOpen d := fun d hd => hclosed d (hperm.mem_iff.2 hd)
  have hget := parseCacheControl_split hclosed
  have hget' := parseCacheControl_split hclosed'
  rw [Map.getAll_of_isCanonical hkey, Map.getAll_of_isCanonical hkey, hlines, hlines']
  unfold comma at hget hget'
  rw [hget, hget']
  refine mergeAll_perm (forall_mem_map.2 fun a _ => ?_) (hperm.map _)
  exact unsetZero_parseCacheControl a

def threeDirectives : List (List Bytes) :=
  [[ascii "max-age=60", ascii "no-cache=\"a,b\""], [ascii "no-store"]]

def threeDirectives' : List (List Bytes) :=
  [[ascii "no-store", ascii "max-age=60"], [], [ascii "no-cache=\"a,b\""]]

def ccKey : Bytes := ascii "Cache-Control"

def ccLines (lines : List (List Bytes)) : Map :=
  ⟨lines.map fun l => ⟨ccKey, List.intercalate (ascii ", ") l⟩⟩

theorem reordered_directives_same :
    ¬ LeavesOpen (ascii "no-cache=\"a,b\"") ∧
    parseCacheControl (ascii "no-cache=\"a,b\"" ++ ascii ", " ++ ascii "max-age=60") =
      (parseCacheControl (ascii "no-cache=\"a,b\"")).merge (parseCacheControl (ascii "max-age=60")) ∧
    (parseCacheControl ((ccLines threeDirectives).getAll ccKey)).withoutFields =
      (parseCacheControl ((ccLines threeDirectives').getAll ccKey)).withoutFields := by
  have hclosed : ¬ LeavesOpen (ascii "no-cache=\"a,b\"") := by decide
  refine ⟨hclosed, joined_directives_merge.1 _ _ hclosed, ?_⟩
  refine joined_directives_merge.2 ccKey (ccLines threeDirectives) (ccLines threeDirectives')
    threeDirectives threeDirectives' ?_ ?_ ?_ ?_ ?_ <;> decide

end Bouine.Header
