import PriceAction.Proofs.Calendar.Reading
import PriceAction.Proofs.Json.Record
import PriceAction.Proofs.Register
import PriceAction.Proofs.Settings.Codec
import PriceAction.Snapshot.Codec
import PriceAction.Snapshot.Sanitation

/-!
# Data files are read back

Bars, sessions, the context and the series of a market are read as they were written, as long as
their numbers are ordinary and their instants are the calendar's (`Market.ofJson?_toJson`). A file
holds one market or a list of them, and the two are never taken for each other
(`Market.fileOfJson?_toJson`, `Market.fileOfJson?_arrayOf`).
-/

namespace PriceAction

open Json (arrayOf fallback? float? float?_ofFloat instant? list? list?_arrayOf ofFloat optional?
  optional?_orNull orNull required? slots?_zip text?)

/-! ## Bars -/

theorem instant?_toJson {t : Instant} (h : t.IsWritable) : instant? t.toJson = some t :=
  Instant.ofText?_text h

namespace Bar

/-- Whether the bar has a place in a file. -/
structure IsWritable (b : Bar Float) : Prop where
  time : b.time.IsWritable
  finite : b.isFinite = true

theorem ofJson?_toJson {b : Bar Float} (h : b.IsWritable) : ofJson? b.toJson = some b := by
  have hfinite := h.finite
  simp only [isFinite, List.all_cons, List.all_nil, Bool.and_true, Bool.and_eq_true] at hfinite
  obtain ⟨hopening, hhigh, hlow, hclose, hvolume⟩ := hfinite
  rw [toJson, ofJson?, slots?_zip (by decide) rfl]
  simp [required?, fallback?, instant?_toJson h.time, float?_ofFloat hopening,
    float?_ofFloat hhigh, float?_ofFloat hlow, float?_ofFloat hclose, float?_ofFloat hvolume]

theorem readableWithin_toJson (depth : Nat) (b : Bar Float) :
    b.toJson.readableWithin (depth + 1) = true := by
  refine Json.readableWithin_zip fun j hj => ?_
  simp only [List.mem_cons, List.not_mem_nil, or_false] at hj
  rcases hj with rfl | rfl | rfl | rfl | rfl | rfl
  · exact Json.readableWithin_text _ _
  all_goals exact Json.readableWithin_ofFloat _ _

end Bar

/-! ## The context -/

namespace Bias

theorem ofJson?_toJson (b : Bias) : ofJson? b.toJson = some b := by
  cases b <;> rfl

end Bias

namespace DailyRange

structure IsWritable (r : DailyRange Float) : Prop where
  high : r.high.isFinite = true
  low : r.low.isFinite = true

theorem ofJson?_toJson {r : DailyRange Float} (h : r.IsWritable) : ofJson? r.toJson = some r := by
  rw [toJson, ofJson?, slots?_zip (by decide) rfl]
  simp [required?, float?_ofFloat h.high, float?_ofFloat h.low]

theorem readableWithin_toJson (depth : Nat) (r : DailyRange Float) :
    r.toJson.readableWithin (depth + 1) = true := by
  refine Json.readableWithin_zip fun j hj => ?_
  simp only [List.mem_cons, List.not_mem_nil, or_false] at hj
  rcases hj with rfl | rfl <;> exact Json.readableWithin_ofFloat _ _

end DailyRange

namespace Session

structure IsWritable (s : Session) : Prop where
  start : s.start.IsWritable
  stop : s.stop.IsWritable

theorem ofJson?_toJson {s : Session} (h : s.IsWritable) : ofJson? s.toJson = some s := by
  rw [toJson, ofJson?, slots?_zip (by decide) rfl]
  simp [required?, text?, instant?_toJson h.start, instant?_toJson h.stop]

theorem readableWithin_toJson (depth : Nat) (s : Session) :
    s.toJson.readableWithin (depth + 1) = true := by
  refine Json.readableWithin_zip fun j hj => ?_
  simp only [List.mem_cons, List.not_mem_nil, or_false] at hj
  rcases hj with rfl | rfl | rfl <;> exact Json.readableWithin_text _ _

end Session

namespace MarketContext

structure IsWritable (c : MarketContext Float) : Prop where
  dailyRange : ∀ r ∈ c.dailyRange, r.IsWritable
  sessions : ∀ s ∈ c.sessions, s.IsWritable
  higherVolatility : ∀ x ∈ c.higherVolatility, x.isFinite = true

theorem ofJson?_toJson {c : MarketContext Float} (h : c.IsWritable) :
    ofJson? c.toJson = some c := by
  have hrange : optional? DailyRange.ofJson? (orNull DailyRange.toJson c.dailyRange) =
      some c.dailyRange :=
    optional?_orNull rfl fun r hr => DailyRange.ofJson?_toJson (h.dailyRange r hr)
  have hsessions : list? Session.ofJson? (arrayOf Session.toJson c.sessions) = some c.sessions :=
    list?_arrayOf fun s hs => Session.ofJson?_toJson (h.sessions s hs)
  have hbias : optional? Bias.ofJson? (orNull Bias.toJson c.higherBias) = some c.higherBias :=
    optional?_orNull rfl fun b _ => Bias.ofJson?_toJson b
  have hvolatility : optional? float? (orNull ofFloat c.higherVolatility) =
      some c.higherVolatility :=
    optional?_orNull rfl fun x hx => float?_ofFloat (h.higherVolatility x hx)
  rw [toJson, ofJson?, slots?_zip (by decide) rfl]
  simp [fallback?, hrange, hsessions, hbias, hvolatility]

theorem readableWithin_toJson (depth : Nat) (c : MarketContext Float) :
    c.toJson.readableWithin (depth + 3) = true := by
  refine Json.readableWithin_zip fun j hj => ?_
  simp only [List.mem_cons, List.not_mem_nil, or_false] at hj
  rcases hj with rfl | rfl | rfl | rfl
  · exact Json.readableWithin_orNull fun r _ => r.readableWithin_toJson _
  · exact Json.readableWithin_arrayOf fun s _ => s.readableWithin_toJson _
  · exact Json.readableWithin_orNull fun b _ => Json.readableWithin_text _ _
  · exact Json.readableWithin_orNull fun x _ => Json.readableWithin_ofFloat _ x

end MarketContext

/-! ## Markets -/

namespace Market

structure IsWritable (m : Market Float) : Prop where
  series : ∀ e ∈ m.series.entries, ∀ b ∈ e.2, b.IsWritable
  context : m.context.IsWritable

theorem seriesOfJson?_object {series : Register (List (Bar Float))}
    (h : ∀ e ∈ series.entries, ∀ b ∈ e.2, b.IsWritable) :
    seriesOfJson? (.object (series.entries.map fun e => (e.1, arrayOf Bar.toJson e.2))) =
      some series := by
  have hentries : (series.entries.map fun e => (e.1, arrayOf Bar.toJson e.2)).mapM
      (fun f => (list? Bar.ofJson? f.2).map fun bars => (f.1, bars)) =
        some series.entries := by
    rw [List.mapM_map]
    refine (mapM_eq_map (f := id) fun e he => ?_).trans (by rw [List.map_id])
    have hbars := list?_arrayOf fun b hb => Bar.ofJson?_toJson (h e he b hb)
    simp [hbars]
  simp only [seriesOfJson?, Json.object?, hentries, Option.bind_eq_bind, Option.bind_some,
    Register.ofList_entries]

theorem ofJson?_toJson {m : Market Float} (h : m.IsWritable) : ofJson? m.toJson = some m := by
  rw [toJson, ofJson?, slots?_zip (by decide) rfl]
  simp [required?, fallback?, text?, seriesOfJson?_object h.series,
    MarketContext.ofJson?_toJson h.context]

theorem readableWithin_toJson (depth : Nat) (m : Market Float) :
    m.toJson.readableWithin (depth + 4) = true := by
  refine Json.readableWithin_zip fun j hj => ?_
  simp only [List.mem_cons, List.not_mem_nil, or_false] at hj
  rcases hj with rfl | rfl | rfl | rfl
  · exact Json.readableWithin_text _ _
  · exact Json.readableWithin_text _ _
  · refine Json.fieldsReadableWithin_iff.2 fun f hf => ?_
    obtain ⟨e, -, rfl⟩ := List.mem_map.1 hf
    exact Json.readableWithin_arrayOf fun b _ => b.readableWithin_toJson _
  · exact m.context.readableWithin_toJson _

/-! ## Files -/

theorem fileOfJson?_toJson {m : Market Float} (h : m.IsWritable) :
    fileOfJson? m.toJson = some [m] := by
  rw [fileOfJson?, if_pos (m.readableWithin_toJson 123), listOfJson?, ofJson?_toJson h]
  rfl

theorem fileOfJson?_arrayOf {ms : List (Market Float)} (h : ∀ m ∈ ms, m.IsWritable) :
    fileOfJson? (arrayOf toJson ms) = some ms := by
  have hreadable : (arrayOf toJson ms).readableWithin 127 = true :=
    Json.readableWithin_arrayOf fun m _ => m.readableWithin_toJson 122
  rw [fileOfJson?, if_pos hreadable, listOfJson?,
    list?_arrayOf fun m hm => ofJson?_toJson (h m hm)]
  rfl

end Market

/-- Whatever is written to a file of markets or of settings is read back from it, and settings
that are left out of the file, at any depth, have their standard values. -/
theorem files_readBack :
    (∀ m : Market Float, m.IsWritable → Market.fileOfJson? m.toJson = some [m]) ∧
    (∀ ms : List (Market Float), (∀ m ∈ ms, m.IsWritable) →
      Market.fileOfJson? (arrayOf Market.toJson ms) = some ms) ∧
    (∀ s : Settings Float, s.IsWritable →
      Settings.ofJson? s.toJson = some s ∧
      ∀ keep, Settings.ofJson? (s.toJson.pruned keep) = some (s.keeping keep)) :=
  ⟨fun _ => Market.fileOfJson?_toJson, fun _ => Market.fileOfJson?_arrayOf,
    fun _ h => ⟨Settings.ofJson?_toJson h, fun keep => Settings.ofJson?_pruned keep h⟩⟩

/-- A bar with half a second in its time, a market with context, and settings with a wider window,
which is standard again once it is left out. -/
theorem files_readBack_session :
    let bar : Bar Float := ⟨⟨1700000000, 500000000⟩, 100.0, 101.5, 99.25, 101.0, 12.0⟩
    let market : Market Float :=
      { symbol := "ES", primary := ⟨"5m"⟩, series := .ofList [("5m", [bar]), ("1h", [])]
        context :=
          { dailyRange := some ⟨103.0, 98.0⟩
            sessions := [⟨"london", .ofSeconds 1699999200, .ofSeconds 1700031600⟩]
            higherBias := some .bullish } }
    let settings : Settings Float := { Settings.standard with swing := ⟨3, 5⟩ }
    market.IsWritable ∧ settings.IsWritable ∧
      Market.fileOfJson? market.toJson = some [market] ∧
      Market.fileOfJson? (arrayOf Market.toJson []) = some [] ∧
      Market.fileOfJson? (arrayOf Market.toJson [market]) = some [market] ∧
      Settings.ofJson? settings.toJson = some settings ∧
      Settings.ofJson? (settings.toJson.pruned (· ≠ ["swing", "window"])) =
        some { Settings.standard with swing := ⟨2, 5⟩ } := by
  intro bar market settings
  have hbar : bar.IsWritable := ⟨by decide, by decide⟩
  have hmarket : market.IsWritable :=
    { series := by
        intro e he b hb
        have hentries : market.series.entries = [("1h", []), ("5m", [bar])] := by
          have hlt : "1h" < "5m" := by decide
          simp [market, Register.ofList, Register.insert, Register.insertEntry, Register.empty, hlt]
        simp only [hentries, List.mem_cons, List.not_mem_nil, or_false] at he
        rcases he with rfl | rfl
        · cases hb
        · cases List.mem_singleton.1 hb
          exact hbar
      context :=
        { dailyRange := by rintro _ ⟨⟩; exact ⟨by decide, by decide⟩
          sessions := by
            intro s hs
            cases List.mem_singleton.1 hs
            exact ⟨by decide, by decide⟩
          higherVolatility := by rintro _ ⟨⟩ } }
  have hsettings : settings.IsWritable :=
    { Settings.isWritable_standard with swing := ⟨by decide, by decide⟩ }
  obtain ⟨hsingle, hlist, hread⟩ := files_readBack
  exact ⟨hmarket, hsettings, hsingle market hmarket, hlist [] (by simp),
    hlist [market] (by simpa using hmarket), (hread settings hsettings).1,
    (hread settings hsettings).2 _⟩

end PriceAction
