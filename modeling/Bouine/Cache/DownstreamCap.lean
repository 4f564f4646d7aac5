import Bouine.Cache.Stored

/-! # The cap for caches downstream

On a route with `downstream_freshness: sync` the cache writes a `CDN-Cache-Control` line, so that no
cache downstream trusts a response longer than this one (`internal/cache/downstreamcc.go`). This is
the whole of a fill, and what is left of an object for a hit.
-/

namespace Bouine.Cache

open Lib Header

/-- `strconv.AppendInt` in base ten. -/
def formatInt (n : Int) : Bytes :=
  let digits := (Nat.toDigits 10 n.natAbs).map byte
  if n < 0 then byte '-' :: digits else digits

/-- `appendFillCDCDirectives`: the shorter of the origin's lifetime and the cache's own. -/
def appendFillCDCDirectives (respCC : Directives) (originEffective objTTL : Int) : Bytes :=
  if respCC.noCache then ascii "public, no-cache"
  else
    let cdc := if 0 < originEffective ∧ originEffective < objTTL then originEffective else objTTL
    let cdc := if cdc < 0 then 0 else cdc
    ascii "public, max-age=" ++ formatInt (cdc.tdiv second) ++
      (if respCC.mustRevalidate then ascii ", must-revalidate" else []) ++
      (if respCC.proxyRevalidate then ascii ", proxy-revalidate" else [])

/-- `originEffectiveMaxAge`; without explicit freshness it is zero. -/
def originEffectiveMaxAge (timeParse : TimeParse) (respCC : Directives) (resMap : Map) : Int :=
  if respCC.sMaxAgeSet then respCC.sMaxAge
  else if respCC.maxAgeSet then respCC.maxAge
  else
    let expiresAt := parseHTTPDate timeParse (resMap.get Field.expires)
    let date := parseHTTPDate timeParse (resMap.get Field.date)
    if expiresAt = 0 then 0
    else if date = 0 then 0
    else if 0 < timeSub expiresAt date then timeSub expiresAt date
    else 0

/-- Whole seconds of freshness that are left. -/
def cdcWallRemaining (o : Stored) (now : Int) : Int :=
  let rem := timeSub (o.storedAt + o.ttl) now
  if rem ≤ 0 then 0 else rem.tdiv second

/-- Whole seconds until the end of a window after that; negative if none are left. -/
def cdcWindowRemaining (o : Stored) (now window : Int) : Int :=
  if window ≤ 0 then -1
  else
    let rem := timeSub (o.storedAt + wrap64 (o.ttl + window)) now
    if rem ≤ 0 then -1 else rem.tdiv second

section

variable (timeParse : TimeParse) (scale : Int → Int → Int) (fp : FillPolicy)

/-- `fillFinalTTLFor`: the lifetime the response is also stored with. -/
def fillFinalTTLFor (resMap : Map) (delay : Int) (parsed : ParsedResponse) (clock now : Int) : Int :=
  fp.fillFinalTTL timeParse scale resMap parsed.status parsed.respCC
    (correctedInitialAge timeParse (parseOriginAge resMap.get) delay (resMap.get Field.date) now) clock now

/-- The cap a fill is served with, stored or not, if a shared cache may store it. -/
def fillCap (syncCDC : Bool) (parsed : ParsedResponse) (resMap : Map) (delay clock now : Int) :
    Option Bytes :=
  if syncCDC && parsed.isCacheableWithDefault timeParse fp.neg fp.defaultTTL then
    some (appendFillCDCDirectives parsed.respCC (originEffectiveMaxAge timeParse parsed.respCC resMap)
      (fillFinalTTLFor timeParse scale fp resMap delay parsed clock now))
  else none

end

end Bouine.Cache
