import PriceAction.Liquidity.State
import PriceAction.Structure.Encoding

/-!
# Liquidity as data

How the liquidity of a series is written to a data file. A pool shows a session only when it has
one.
-/

namespace PriceAction

open Json (arrayOf ofFloat ofNat)

def PoolKind.toJson (k : PoolKind) : Json := .text k.text

def Pool.toJson (p : Pool Float) : Json := .object
  ([("kind", p.kind.toJson), ("price", ofFloat p.price), ("direction", p.direction.toJson),
    ("role", p.role.toJson), ("strength", ofFloat p.strength), ("touches", ofNat p.touches),
    ("first_touch", p.firstTouch.toJson), ("last_touch", p.lastTouch.toJson),
    ("first_index", ofNat p.firstIndex), ("last_index", ofNat p.lastIndex)] ++
    (p.session.map fun name => ("session", Json.text name)).toList)

def Sweep.toJson (s : Sweep Float) : Json := .object
  [("level", ofFloat s.level), ("side", s.side.toJson), ("swing_index", ofNat s.swingIndex),
    ("bar_index", ofNat s.barIndex), ("timestamp", s.time.toJson),
    ("wick_ratio", ofFloat s.wickRatio), ("reclaim_index", ofNat s.reclaimIndex)]

def WickCluster.toJson (c : WickCluster Float) : Json := .object
  [("price", ofFloat c.price), ("side", c.side.toJson), ("touches", ofNat c.touches),
    ("bar_indices", arrayOf ofNat c.barIndices)]

def Magnet.toJson (m : Magnet Float) : Json := .object
  [("low", ofFloat m.low), ("high", ofFloat m.high), ("price", ofFloat m.price),
    ("kind", m.kind.toJson), ("direction", m.direction.toJson), ("role", m.role.toJson),
    ("strength", ofFloat m.strength), ("pool_count", ofNat m.poolCount),
    ("primary", .bool m.primary)]

def Phase.toJson (p : Phase) : Json := .text p.text

def Liquidity.toJson (l : Liquidity Float) : Json := .object
  [("pools", arrayOf Pool.toJson l.pools), ("magnets", arrayOf Magnet.toJson l.magnets),
    ("phase", l.phase.toJson),
    ("meta", .object
      [("tolerance_pct", ofFloat l.tolerance), ("sweeps", arrayOf Sweep.toJson l.sweeps),
        ("wick_clusters", arrayOf WickCluster.toJson l.wickClusters),
        ("phase_reasons", arrayOf Json.text l.phaseReasons)])]

end PriceAction
