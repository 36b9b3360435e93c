import PriceAction.Proofs.Indexed.Basic
import PriceAction.Proofs.Structure.Swing

/-!
# Swings by position

A bar is compared with the bars at the positions around it, for windows that grow while they lie
within the series. No read leaves the series, and the swings are the same; a word fails only where
there are none (`swings?_eq`).
-/

namespace PriceAction.Indexed

variable {α : Type} [Scalar α]

/-- Whether the bar at `i` is the earliest extreme among `k` bars on each side. -/
def isPivot? (kind : SwingKind) (bars : List (Bar α)) (i k : Nat) : Option Bool := do
  let bar ← bars[i]?
  let first ← minus? i k
  let left ← slice? bars first i
  let next ← plus? i 1
  let last ← plus? i k
  let stop ← plus? last 1
  let right ← slice? bars next stop
  some (left.all (fun b => kind.beyond (kind.price bar) (kind.price b)) &&
    right.all fun b => !kind.beyond (kind.price b) (kind.price bar))

/-- The strength after some multiples of the window have been tried in turn. -/
def strengthAfter? (kind : SwingKind) (bars : List (Bar α)) (i window : Nat) :
    (strength : Nat) → (multiples : List Nat) → Option Nat
  | strength, [] => some strength
  | strength, m :: rest => do
    let k ← times? window m
    if i < k then some strength
    else do
      let last ← plus? i k
      if bars.length ≤ last then some strength
      else do
        let holds ← isPivot? kind bars i k
        if holds then strengthAfter? kind bars i window m rest else some strength

def strength? (kind : SwingKind) (bars : List (Bar α)) (i window cap : Nat) : Option Nat :=
  strengthAfter? kind bars i window 1 (List.range' 2 (max cap 1 - 1))

/-- The swing of a kind at a position, if there is one. -/
def swingsOf? (bars : List (Bar α)) (window cap i : Nat) (bar : Bar α) (kind : SwingKind) :
    Option (List (Swing α)) := do
  let pivot ← isPivot? kind bars i window
  if pivot then do
    let strength ← strength? kind bars i window cap
    some [{ index := i
            time := bar.time
            price := kind.price bar
            kind := kind
            strength := strength }]
  else some []

def swingsAt? (bars : List (Bar α)) (window cap i : Nat) : Option (List (Swing α)) := do
  let bar ← bars[i]?
  gather? (swingsOf? bars window cap i bar)
    (if bar.isBullish then [.low, .high] else [.high, .low])

def swings? (bars : List (Bar α)) (window cap : Nat) : Option (List (Swing α)) :=
  if window = 0 then some []
  else do
    let twice ← times? 2 window
    let least ← plus? twice 1
    if bars.length < least then some []
    else do
      let stop ← minus? bars.length window
      gather? (swingsAt? bars window cap) (List.range' window (stop - window))

/-! ## One bar -/

variable {bars : List (Bar α)} {bar : Bar α} {kind : SwingKind} {window cap i k : Nat}

theorem isPivot?_eq (hbars : bars.length ≤ 2 ^ 32) (hget : bars[i]? = some bar) (hk : k ≤ i)
    (hlast : i + k < bars.length) :
    isPivot? kind bars i k =
      some (Swing.isPivot kind (bars.take i).reverse bar (bars.drop (i + 1)) k) := by
  have hi : (bars.take i).length = i := by
    rw [List.length_take]
    omega
  have hleft : (bars.take i).reverse.take k = ((bars.take i).drop (i - k)).reverse := by
    rw [List.take_reverse, hi]
  have hright : (bars.drop (i + 1)).take k = (bars.take (i + k + 1)).drop (i + 1) := by
    rw [List.drop_take, show i + k + 1 - (i + 1) = k by omega]
  have hleft_length : ((bars.take i).drop (i - k)).length = k := by
    rw [List.length_drop, hi]
    omega
  have hright_length : ((bars.take (i + k + 1)).drop (i + 1)).length = k := by
    rw [List.length_drop, List.length_take]
    omega
  rw [isPivot?, hget, minus?_eq hk, plus?_eq (by omega), plus?_eq (by omega)]
  simp only [Option.bind_eq_bind, Option.bind_some]
  rw [slice?_eq (by omega) (by omega), plus?_eq (by omega), Option.bind_some, Option.bind_some,
    slice?_eq (by omega) (by omega), Option.bind_some, Swing.isPivot, hleft, hright]
  simp [hleft_length, hright_length]

theorem strengthAfter?_eq (hbars : bars.length ≤ 2 ^ 32) (hget : bars[i]? = some bar)
    (hwindow : window ≤ i) {n m : Nat} (hm : 1 ≤ m) (hreach : window * m ≤ i) :
    strengthAfter? kind bars i window m (List.range' (m + 1) n) =
      some (m + ((List.range' (m + 1) n).takeWhile fun k =>
        Swing.isPivot kind (bars.take i).reverse bar (bars.drop (i + 1)) (window * k)).length) := by
  have hi : i < bars.length := (List.getElem?_eq_some_iff.1 hget).1
  have hbefore : (bars.take i).reverse.length = i := by
    rw [List.length_reverse, List.length_take]
    omega
  have hafter : (bars.drop (i + 1)).length = bars.length - (i + 1) := List.length_drop
  induction n generalizing m with
  | zero => rfl
  | succ n ih =>
    have hnext : window * (m + 1) = window * m + window := Nat.mul_succ ..
    rw [List.range'_succ, strengthAfter?, times?_eq (by omega), List.takeWhile_cons]
    simp only [Option.bind_eq_bind, Option.bind_some]
    by_cases hlow : i < window * (m + 1)
    · have hnot : ¬Swing.isPivot kind (bars.take i).reverse bar (bars.drop (i + 1))
          (window * (m + 1)) = true := by
        rw [Swing.isPivot_iff]
        omega
      rw [if_pos hlow, if_neg hnot]
      rfl
    · rw [if_neg hlow, plus?_eq (by omega), Option.bind_some]
      by_cases hhigh : bars.length ≤ i + window * (m + 1)
      · have hnot : ¬Swing.isPivot kind (bars.take i).reverse bar (bars.drop (i + 1))
            (window * (m + 1)) = true := by
          rw [Swing.isPivot_iff]
          omega
        rw [if_pos hhigh, if_neg hnot]
        rfl
      · rw [if_neg hhigh, isPivot?_eq hbars hget (by omega) (by omega), Option.bind_some]
        split
        · rw [ih (by omega) (by omega), List.length_cons, Nat.add_right_comm, Nat.add_assoc m]
        · rfl

/-- Multiples beyond the number of earlier bars need not be tried. -/
theorem length_takeWhile_min (hwindow : window ≠ 0) {before after : List (Bar α)} (n : Nat) :
    ((List.range' 2 n).takeWhile fun m =>
        Swing.isPivot kind before bar after (window * m)).length =
      ((List.range' 2 (min n before.length)).takeWhile fun m =>
        Swing.isPivot kind before bar after (window * m)).length := by
  rcases Nat.le_total n before.length with hle | hle
  · rw [Nat.min_eq_left hle]
  · have hsplit : List.range' 2 n =
        List.range' 2 before.length ++ List.range' (2 + before.length) (n - before.length) := by
      rw [List.range'_append_1]
      congr 1
      omega
    have hnone : (List.range' (2 + before.length) (n - before.length)).takeWhile (fun m =>
        Swing.isPivot kind before bar after (window * m)) = [] := by
      cases n - before.length with
      | zero => rfl
      | succ n' =>
        rw [List.range'_succ, List.takeWhile_cons_of_neg]
        rw [Swing.isPivot_iff]
        intro ⟨hbefore, _⟩
        have hlarge : 2 + before.length ≤ window * (2 + before.length) :=
          Nat.le_mul_of_pos_left _ (Nat.pos_of_ne_zero hwindow)
        omega
    rw [Nat.min_eq_right hle, hsplit, List.takeWhile_append, hnone, List.append_nil]
    split
    · next h =>
      rw [(List.takeWhile_prefix _).eq_of_length h]
    · rfl

theorem strength?_eq (hbars : bars.length ≤ 2 ^ 32) (hget : bars[i]? = some bar)
    (hne : window ≠ 0) (hwindow : window ≤ i) :
    strength? kind bars i window cap =
      some (Swing.strengthOf kind (bars.take i).reverse bar (bars.drop (i + 1)) window cap) := by
  have hcap : max cap 1 - 1 = cap - 1 := by omega
  rw [strength?, strengthAfter?_eq hbars hget hwindow (Nat.le_refl 1) (by omega), hcap,
    length_takeWhile_min hne, Swing.strengthOf, Nat.add_comm]

theorem swingsAt?_eq (hbars : bars.length ≤ 2 ^ 32) (hget : bars[i]? = some bar)
    (hne : window ≠ 0) (hwindow : window ≤ i) (hlast : i + window < bars.length) :
    swingsAt? bars window cap i =
      some (Swing.atBar window cap (bars.take i).reverse bar (bars.drop (i + 1))) := by
  have hi : (bars.take i).reverse.length = i := by
    rw [List.length_reverse, List.length_take]
    omega
  have hstep : ∀ kind, swingsOf? bars window cap i bar kind =
      some (if Swing.isPivot kind (bars.take i).reverse bar (bars.drop (i + 1)) window then
        [{ index := i
           time := bar.time
           price := kind.price bar
           kind := kind
           strength := Swing.strengthOf kind (bars.take i).reverse bar (bars.drop (i + 1))
             window cap }] else []) := by
    intro kind
    rw [swingsOf?, isPivot?_eq hbars hget hwindow hlast]
    simp only [Option.bind_eq_bind, Option.bind_some]
    split
    · rw [strength?_eq hbars hget hne hwindow, Option.bind_some]
    · rfl
  rw [swingsAt?, hget]
  simp only [Option.bind_eq_bind, Option.bind_some]
  rw [gather?_eq_flatMap fun kind _ => hstep kind, Swing.atBar, hi, flatMap_ite_singleton]

/-! ## The whole series -/

theorem atBar_eq_nil_of_before {before after : List (Bar α)} (h : before.length < window) :
    Swing.atBar window cap before bar after = [] := by
  rw [Swing.atBar, List.map_eq_nil_iff, List.filter_eq_nil_iff]
  intro kind _ hpivot
  have := (Swing.isPivot_iff.1 hpivot).1
  omega

omit [Scalar α] in
theorem take_succ_reverse (hi : i < bars.length) :
    (bars.take (i + 1)).reverse = bars[i] :: (bars.take i).reverse := by
  rw [List.take_succ_eq_append_getElem hi, List.reverse_append]
  rfl

theorem scan_take_eq {n : Nat} (h : i + n = window) :
    Swing.scan window cap (bars.take i).reverse (bars.drop i) =
      Swing.scan window cap (bars.take window).reverse (bars.drop window) := by
  induction n generalizing i with
  | zero => rw [← h, Nat.add_zero]
  | succ n ih =>
    rw [← ih (i := i + 1) (by omega)]
    by_cases hi : i < bars.length
    · rw [List.drop_eq_getElem_cons hi, Swing.scan, take_succ_reverse hi,
        atBar_eq_nil_of_before, List.nil_append]
      rw [List.length_reverse, List.length_take]
      omega
    · rw [List.drop_eq_nil_of_le (by omega), List.drop_eq_nil_of_le (by omega)]
      rfl

theorem gather?_swingsAt?_eq (hbars : bars.length ≤ 2 ^ 32) (hne : window ≠ 0) {n : Nat}
    (hwindow : window ≤ i) (hstop : i + n + window = bars.length) :
    gather? (swingsAt? bars window cap) (List.range' i n) =
      some (Swing.scan window cap (bars.take i).reverse (bars.drop i)) := by
  induction n generalizing i with
  | zero =>
    rw [Swing.scan_eq_nil]
    · rfl
    · rw [List.length_drop]
      omega
  | succ n ih =>
    have hi : i < bars.length := by omega
    have hget : bars[i]? = some bars[i] := List.getElem?_eq_getElem hi
    have hlater := ih (i := i + 1) (by omega) (by omega)
    rw [take_succ_reverse hi] at hlater
    rw [List.range'_succ, List.drop_eq_getElem_cons hi, Swing.scan]
    exact gather?_cons (swingsAt?_eq hbars hget hne hwindow (by omega)) hlater

theorem swings?_eq (hbars : bars.length ≤ 2 ^ 32) :
    swings? bars window cap = Swing.detect? bars window cap := by
  rw [swings?, Swing.detect?, pow2_word, Swing.detect]
  by_cases hne : window = 0
  · rw [if_pos hne, if_pos hne, if_pos (by omega)]
  rw [if_neg hne, if_neg hne]
  by_cases hcount : 2 * window + 1 < 2 ^ 64
  · rw [if_pos hcount, times?_eq (by omega)]
    simp only [Option.bind_eq_bind, Option.bind_some]
    rw [plus?_eq hcount, Option.bind_some]
    have hskip : Swing.scan window cap [] bars =
        Swing.scan window cap (bars.take window).reverse (bars.drop window) :=
      scan_take_eq (i := 0) (Nat.zero_add window)
    split
    · rw [hskip, Swing.scan_eq_nil]
      rw [List.length_drop]
      omega
    · rw [minus?_eq (by omega), Option.bind_some,
        gather?_swingsAt?_eq hbars hne (Nat.le_refl _) (by omega), hskip]
  · rw [if_neg hcount, times?_eq_none (by omega)]
    rfl

end PriceAction.Indexed
