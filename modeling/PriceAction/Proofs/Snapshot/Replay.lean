import PriceAction.Proofs.Calendar.Order
import PriceAction.Proofs.Register
import PriceAction.Scalar.Floating
import PriceAction.Snapshot.Limits

/-!
# A replay does not look ahead

What a replay shows up to a step depends only on what had closed by then (`replay_upTo`). This needs
bars that close in the order of their times. They do unless a time is a leap second
(`StepsInOrder.of_ordinary`), from which the calendar may count back a second; then a step may leave
out a bar before it (`replay_upTo_leapSecond`).
-/

namespace PriceAction

variable {α : Type}

/-! ## Going back twice -/

theorem Instant.plus_lt_plus {s t : Instant} (hs : s.nanos < pow10 9) (ht : t.nanos < pow10 9)
    (h : s < t) (d : Int) : s.plus d < t.plus d := by
  rw [lt_iff] at h
  rw [plus_of_nanos_lt hs, plus_of_nanos_lt ht, lt_iff]
  dsimp only
  omega

namespace Market

theorem closedBy_closedBy (tf : Timeframe) (s t : Instant) (bars : List (Bar α)) :
    closedBy tf t (closedBy tf s bars) = closedBy tf (min s t) bars := by
  rw [closedBy, closedBy, closedBy, List.filter_filter]
  apply List.filter_congr
  intro b _
  rw [Bool.eq_iff_iff]
  simp [and_comm]

theorem upTo_upTo {m : Market α} {r s t : Instant}
    (h : min (m.closeOf s) (m.closeOf t) = m.closeOf r) : (m.upTo s).upTo t = m.upTo r := by
  have hseries : ((m.upTo s).upTo t).series = (m.upTo r).series := by
    apply Register.ext_get?
    intro key
    simp only [upTo, Register.get?_map, Option.map_map, ← h]
    simp only [closeOf, Function.comp_def, closedBy_closedBy]
  show ({ m with series := ((m.upTo s).upTo t).series } : Market α) = _
  rw [hseries]
  rfl

/-- The earlier of two times decides, if it also closes first. -/
theorem upTo_upTo_min {m : Market α} {s t : Instant} (hst : s ≤ t → m.closeOf s ≤ m.closeOf t)
    (hts : t ≤ s → m.closeOf t ≤ m.closeOf s) : (m.upTo s).upTo t = m.upTo (min s t) := by
  apply upTo_upTo
  rcases le_total s t with hle | hle
  · rw [min_eq_left hle, min_eq_left (hst hle)]
  · rw [min_eq_right hle, min_eq_right (hts hle)]

/-! ## Steps in order -/

/-- Whether the primary bars ascend in time, and close in that order. -/
structure StepsInOrder (m : Market α) : Prop where
  times : (m.primaryBars?.getD []).Pairwise fun a b => a.time < b.time
  closes : (m.primaryBars?.getD []).Pairwise fun a b => m.closeOf a.time < m.closeOf b.time

theorem StepsInOrder.of_ordinary {m : Market α}
    (htimes : (m.primaryBars?.getD []).Pairwise fun a b => a.time < b.time)
    (hordinary : ∀ b ∈ m.primaryBars?.getD [], b.time.nanos < pow10 9) : m.StepsInOrder :=
  ⟨htimes, htimes.imp_of_mem fun ha hb hlt =>
    Instant.plus_lt_plus (hordinary _ ha) (hordinary _ hb) hlt _⟩

/-- The steps of a replay are those up to a bar, which are all steps of the replay up to that bar,
and then later ones. -/
theorem StepsInOrder.exists_steps {m : Market α} (h : m.StepsInOrder) {b : Bar α}
    (hb : b ∈ m.primaryBars?.getD []) (warmup : Nat) :
    ∃ steps later, m.replayTimes warmup = steps ++ later ∧
      (m.upTo b.time).replayTimes warmup = steps ∧
      (∀ s ∈ steps, s ≤ b.time ∧ m.closeOf s ≤ m.closeOf b.time) ∧ ∀ s ∈ later, b.time < s := by
  obtain ⟨htimes, hcloses⟩ := h
  cases hbars : m.primaryBars? with
  | none => simp [hbars] at hb
  | some bars =>
    simp only [hbars, Option.getD_some] at hb htimes hcloses
    obtain ⟨early, late, rfl⟩ := List.append_of_mem hb
    obtain ⟨-, htimes, hearly⟩ := List.pairwise_append.1 htimes
    obtain ⟨-, hcloses, hearly'⟩ := List.pairwise_append.1 hcloses
    have hlate := (List.pairwise_cons.1 htimes).1
    have hlate' := (List.pairwise_cons.1 hcloses).1
    have hupTo : ∀ x ∈ early ++ [b], x.time ≤ b.time ∧ m.closeOf x.time ≤ m.closeOf b.time := by
      intro x hx
      rcases List.mem_append.1 hx with hx | hx
      · exact ⟨le_of_lt (hearly x hx b List.mem_cons_self),
          le_of_lt (hearly' x hx b List.mem_cons_self)⟩
      · rw [List.mem_singleton.1 hx]
        exact ⟨le_rfl, le_rfl⟩
    have hkept : (m.upTo b.time).primaryBars? = some (early ++ [b]) := by
      have hclosed : closedBy m.primary (m.closeOf b.time) (early ++ b :: late) = early ++ [b] := by
        rw [closedBy, List.append_cons, List.filter_append, List.filter_eq_self.2,
          List.filter_eq_nil_iff.2, List.append_nil]
        · intro x hx
          rw [decide_eq_true_iff]
          exact not_le_of_gt (hlate' x hx)
        · intro x hx
          exact decide_eq_true (hupTo x hx).2
      rw [primaryBars?] at hbars ⊢
      simp only [upTo, Register.get?_map, hbars, Option.map_some]
      exact congrArg some hclosed
    refine ⟨((early ++ [b]).drop (warmup - 1)).map (·.time),
      (late.drop (warmup - 1 - (early ++ [b]).length)).map (·.time), ?_, ?_, ?_, ?_⟩
    · rw [replayTimes, hbars, Option.getD_some, List.append_cons, List.drop_append, List.map_append]
    · rw [replayTimes, hkept, Option.getD_some]
    · intro s hs
      obtain ⟨x, hx, rfl⟩ := List.mem_map.1 hs
      exact hupTo x (List.mem_of_mem_drop hx)
    · intro s hs
      obtain ⟨x, hx, rfl⟩ := List.mem_map.1 hs
      exact hlate x (List.mem_of_mem_drop hx)

end Market

/-! ## Batches -/

variable [Scalar α]

theorem fst_batch_append (settings : Settings α) (xs ys : List (Market α)) (s : Store α) :
    (batch settings (xs ++ ys) s).1 =
      (batch settings xs s).1 ++ (batch settings ys (batch settings xs s).2).1 := by
  induction xs generalizing s with
  | nil => rfl
  | cons m rest ih => exact congrArg ((m.snapshot settings s).1 :: ·) (ih _)

theorem length_batch (settings : Settings α) (markets : List (Market α)) (s : Store α) :
    (batch settings markets s).1.length = markets.length := by
  induction markets generalizing s with
  | nil => rfl
  | cons m rest ih => exact congrArg (· + 1) (ih _)

theorem Market.eq_of_snapshot? {m : Market α} {settings : Settings α} {s : Store α}
    {x : Snapshot α × Store α} (h : m.snapshot? settings s = some x) :
    x = m.snapshot settings s := by
  obtain ⟨a, ha, hx⟩ := Option.bind_eq_some_iff.1 h
  obtain ⟨-, heq⟩ := Option.ite_none_right_eq_some.1 ha
  cases heq
  rw [Analysis.stabilize?] at hx
  split at hx
  · obtain ⟨-, heq⟩ := Option.ite_none_right_eq_some.1 hx
    cases heq
    rfl
  · cases hx
    rfl

theorem batch?_of_append {settings : Settings α} {xs : List (Market α)} (ys : List (Market α))
    {s : Store α} {x : List (Snapshot α) × Store α} (h : batch? settings (xs ++ ys) s = some x) :
    batch? settings xs s = some (batch settings xs s) := by
  induction xs generalizing s x with
  | nil => rfl
  | cons m rest ih =>
    obtain ⟨first, hfirst, hrest⟩ := Option.bind_eq_some_iff.1 h
    obtain ⟨more, hmore, -⟩ := Option.bind_eq_some_iff.1 hrest
    have htail := ih hmore
    obtain rfl := Market.eq_of_snapshot? hfirst
    rw [batch?, hfirst]
    show (batch? settings rest (m.snapshot settings s).2).bind _ = _
    rw [htail]
    rfl

namespace Market

/-! ## Steps in the calendar -/

omit [Scalar α] in
theorem mapM_upTo? {m : Market α} {times : List Instant} {markets : List (Market α)} :
    times.mapM m.upTo? = some markets ↔
      markets = times.map m.upTo ∧ ∀ t ∈ times, m.upTo? t = some (m.upTo t) := by
  induction times generalizing markets with
  | nil => simp [eq_comm]
  | cons t rest ih =>
    have hupTo : ∀ {past}, m.upTo? t = some past → past = m.upTo t := fun h =>
      (Option.some.inj (Option.ite_none_right_eq_some.1 h).2).symm
    rw [List.mapM_cons, List.map_cons, List.forall_mem_cons]
    constructor
    · intro h
      obtain ⟨past, hpast, hrest⟩ := Option.bind_eq_some_iff.1 h
      obtain ⟨more, hmore, heq⟩ := Option.bind_eq_some_iff.1 hrest
      obtain ⟨rfl, hall⟩ := ih.1 hmore
      cases heq
      obtain rfl := hupTo hpast
      exact ⟨rfl, hpast, hall⟩
    · rintro ⟨rfl, hpast, hall⟩
      rw [hpast, ih.2 ⟨rfl, hall⟩]
      rfl

omit [Scalar α] in
theorem upTo?_upTo {m past : Market α} {s t : Instant} (ht : m.upTo? t = some past)
    (hs : m.upTo? s = some (m.upTo s)) (hle : m.closeOf s ≤ m.closeOf t) :
    past.upTo? s = some (m.upTo s) := by
  obtain ⟨-, heq⟩ := Option.ite_none_right_eq_some.1 ht
  obtain ⟨hfits, -⟩ := Option.ite_none_right_eq_some.1 hs
  cases heq
  rw [upTo?, upTo_upTo (min_eq_right hle)]
  refine if_pos ?_
  -- the series of the past have the same labels and fewer bars
  simp only [Bool.and_eq_true, List.all_eq_true] at hfits ⊢
  obtain ⟨hprimary, hseries⟩ := hfits
  refine ⟨hprimary, fun e he => ?_⟩
  obtain ⟨entry, hentry, rfl⟩ := List.mem_map.1 he
  exact ⟨(hseries entry hentry).1, fun b hb => (hseries entry hentry).2 b (List.mem_filter.1 hb).1⟩

/-! ## Replays -/

/-- The snapshots of a replay whose steps are not later than a time. -/
def replayedUntil (m : Market α) (settings : Settings α) (warmup : Nat) (store : Store α)
    (t : Instant) : List (Snapshot α) :=
  (((m.replayTimes warmup).zip (m.replay settings warmup store).1).filter (·.1 ≤ t)).map (·.2)

/-- **A replay does not look ahead.** Going back to one time and then to another is going back to
the earlier of them, if the bars of these times close in their order. So the replay of a market as
it stood when one of its primary bars had closed shows the snapshots that the replay of the whole
market shows up to that bar, if the primary bars close in their order; and it stays in the calendar
where the other does. -/
theorem replay_upTo (m : Market α) (h : m.StepsInOrder) (settings : Settings α) (warmup : Nat) :
    (∀ s t, (s ≤ t → m.closeOf s ≤ m.closeOf t) → (t ≤ s → m.closeOf t ≤ m.closeOf s) →
      (m.upTo s).upTo t = m.upTo (min s t)) ∧
    ∀ b ∈ m.primaryBars?.getD [],
      let store := Store.empty settings.stability
      ((m.upTo b.time).replay settings warmup store).1 =
          m.replayedUntil settings warmup store b.time ∧
        ∀ past x, m.upTo? b.time = some past → m.replay? settings warmup store = some x →
          x = m.replay settings warmup store ∧
            past.replay? settings warmup store = some (past.replay settings warmup store) := by
  refine ⟨fun s t => upTo_upTo_min, fun b hb => ?_⟩
  obtain ⟨steps, later, hsteps, hpast, hupTo, hafter⟩ := h.exists_steps hb warmup
  have hagain : ∀ s ∈ steps, (m.upTo b.time).upTo s = m.upTo s := fun s hs =>
    upTo_upTo (min_eq_right (hupTo s hs).2)
  have hmarkets : (m.upTo b.time).replayMarkets warmup = steps.map m.upTo := by
    rw [replayMarkets, hpast, List.map_congr_left hagain]
  have hall : m.replayMarkets warmup = steps.map m.upTo ++ later.map m.upTo := by
    rw [replayMarkets, hsteps, List.map_append]
  intro store
  constructor
  · have hlength : steps.length = (batch settings (steps.map m.upTo) store).1.length := by
      rw [length_batch, List.length_map]
    rw [replayedUntil, replay, replay, hmarkets, hall, hsteps, fst_batch_append,
      List.zip_append hlength, List.filter_append, List.filter_eq_self.2, List.filter_eq_nil_iff.2,
      List.append_nil, List.map_snd_zip (Nat.le_of_eq hlength.symm)]
    · intro x hx
      rw [decide_eq_true_iff]
      exact not_le_of_gt (hafter x.1 (List.of_mem_zip hx).1)
    · intro x hx
      exact decide_eq_true (hupTo x.1 (List.of_mem_zip hx).1).1
  · intro past x hfits hx
    obtain ⟨markets, hmapM, hbatch⟩ := Option.bind_eq_some_iff.1 hx
    obtain ⟨rfl, hsome⟩ := mapM_upTo?.1 hmapM
    have hrun : x = m.replay settings warmup store := by
      have hnil := batch?_of_append [] (by rwa [List.append_nil])
      rw [hbatch, Option.some.injEq] at hnil
      exact hnil
    obtain rfl : m.upTo b.time = past :=
      Option.some.inj (Option.ite_none_right_eq_some.1 hfits).2
    have hsteps' : steps.mapM (m.upTo b.time).upTo? = some (steps.map m.upTo) := by
      rw [mapM_upTo?, List.map_congr_left hagain]
      refine ⟨rfl, fun s hs => ?_⟩
      rw [hagain s hs]
      exact upTo?_upTo hfits (hsome s (hsteps ▸ List.mem_append_left later hs)) (hupTo s hs).2
    refine ⟨hrun, ?_⟩
    rw [replay?, hpast, hsteps', replay, hmarkets]
    rw [hsteps, List.map_append] at hbatch
    exact batch?_of_append _ hbatch

/-- Two minutes of one market, with the quarter of an hour that is not over yet. -/
def twoMinutes (first second : Instant) : Market Float where
  symbol := "ES"
  primary := ⟨"1m"⟩
  series := .ofList
    [("1m", [⟨first, 1.0, 2.0, 1.0, 1.5, 1.0⟩, ⟨second, 1.5, 4.0, 1.0, 1.5, 1.0⟩]),
      ("15m", [⟨first, 1.0, 4.0, 1.0, 1.5, 2.0⟩])]
  context := {}

theorem replay_upTo_first_minute :
    let first : Instant := .ofSeconds 0
    let second : Instant := .ofSeconds 60
    let m := twoMinutes first second
    let store := Store.empty Settings.standard.stability
    m.StepsInOrder ∧
      (m.upTo second).upTo first = m.upTo (min second first) ∧
      (m.replayedUntil .standard 1 store first).length = 1 ∧
      ((m.upTo first).replay .standard 1 store).1 = m.replayedUntil .standard 1 store first ∧
      (m.upTo? first).isSome ∧ (m.replay? .standard 1 store).isSome ∧
      (m.upTo first).replay? .standard 1 store =
        some ((m.upTo first).replay .standard 1 store) := by
  intro first second m store
  have horder : m.StepsInOrder := .of_ordinary (by decide) (by decide)
  have hmem : ∃ b ∈ m.primaryBars?.getD [], b.time = first := by decide
  have hfits : (m.upTo? first).isSome := by decide
  have hreplay : (m.replay? .standard 1 store).isSome := by decide
  obtain ⟨hupTo, hsteps⟩ := replay_upTo m horder .standard 1
  obtain ⟨b, hb, hfirst⟩ := hmem
  obtain ⟨hsnapshots, hcalendar⟩ := hsteps b hb
  obtain ⟨past, hpast⟩ := Option.isSome_iff_exists.1 hfits
  obtain ⟨x, hx⟩ := Option.isSome_iff_exists.1 hreplay
  obtain rfl : m.upTo first = past := Option.some.inj (Option.ite_none_right_eq_some.1 hpast).2
  rw [hfirst] at hsnapshots hcalendar
  exact ⟨horder, hupTo second first (by decide) (by decide), by decide,
    hsnapshots, hfits, hreplay, (hcalendar (m.upTo first) x hpast hx).2⟩

/-- A minute that opens in a leap second closes before the one that opens just before it. -/
theorem replay_upTo_leapSecond :
    let before : Instant := ⟨1483228799, 999999999⟩
    let leap : Instant := ⟨1483228799, 1000000000⟩
    let m := twoMinutes before leap
    let store := Store.empty Settings.standard.stability
    (m.primaryBars?.getD []).Pairwise (fun a b => a.time < b.time) ∧
      (∃ b ∈ m.primaryBars?.getD [], b.time = leap) ∧
      (m.upTo? leap).isSome ∧ (m.replay? .standard 1 store).isSome ∧
      (m.upTo before).upTo leap ≠ m.upTo (min before leap) ∧
      ((m.upTo leap).replay .standard 1 store).1 ≠ m.replayedUntil .standard 1 store leap := by
  intro before leap m store
  have hlengths : ((m.upTo leap).replay .standard 1 store).1.length = 1 ∧
      (m.replayedUntil .standard 1 store leap).length = 2 := by decide
  refine ⟨by decide, by decide, by decide, by decide, ?_, ?_⟩
  · intro h
    have hcounts := congrArg (fun past => (past.primaryBars?.getD []).length) h
    revert hcounts
    decide
  · intro h
    have := congrArg List.length h
    omega

end Market
end PriceAction
