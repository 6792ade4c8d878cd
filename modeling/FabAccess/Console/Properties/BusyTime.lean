import FabAccess.Console.Spans
import Mathlib.Algebra.BigOperators.Group.List.Basic

/-!
# poll されていた時間

`busy_time` は、poll が無くなるたびに、最初の poll が始まってからの時間を足したものである。これが、poll が
一つでもあった時間の合計であることを述べる。

* `occupied` — poll が一つでもあった時間の合計
* `periods` — poll が一つでもあった、終わった区間の長さ
* `Metered` — 途中の統計と、そこまでの `occupied` や `periods` との関係
* `busy_time_exact` — 途中で始まっている分を足せば、`busy_time` は `occupied` である
-/

namespace FabAccess.Console

namespace PollStats

/-! ## 測られるもの -/

def Call.now : Call → Nat
  | .start now | .finish now => now

/-- 呼び出しの後の、進行中の poll の数。 -/
def Call.depth (d : Nat) : Call → Nat
  | .start _ => d + 1
  | .finish _ => d - 1

/-- 時計は戻らず、`end_poll` は進行中の poll について呼ばれる。 -/
def Legal (d t : Nat) : List Call → Prop
  | [] => True
  | call :: calls => t ≤ call.now ∧ (∀ now, call = .finish now → 0 < d) ∧
      call.depth d < 2 ^ 64 ∧ Legal (call.depth d) call.now calls

/-- 時刻 `t` に `d` 個の poll が進行中のとき、それから最後の呼び出しまでに、poll が一つでもあった時間。 -/
def occupied (d t : Nat) : List Call → Nat
  | [] => 0
  | call :: calls => (if 0 < d then call.now - t else 0) + occupied (call.depth d) call.now calls

/-- 時刻 `since` から続く区間の中に `d` 個の poll が進行中のとき、それから終わる区間の長さ。 -/
def periods (d since : Nat) : List Call → List Nat
  | [] => []
  | .start now :: calls => periods (d + 1) (if d = 0 then now else since) calls
  | .finish now :: calls =>
    if d = 1 then (now - since) :: periods 0 since calls else periods (d - 1) since calls

/-- 進行中の poll が始まってからの時間。 -/
def elapsed {H : Type} (stats : PollStats H) (d t : Nat) : Nat :=
  if 0 < d then t - stats.timestamps.lastPollStarted.getD t else 0

variable {H : Type} (recordPollDuration : H → Nat → H) (histogram : H)

/-- 時刻 `t` までに `busy` だけ poll されていた統計。`ds` は終わった区間の長さ、`since` は進行中の区間の
始まりである。 -/
structure Metered (stats : PollStats H) (d t busy since : Nat) (ds : List Nat) : Prop where
  current : stats.currentPolls = BitVec.ofNat 64 d
  small : d < 2 ^ 64
  started : 0 < d → stats.timestamps.lastPollStarted = some since ∧ since ≤ t
  busy : stats.timestamps.busyTime + stats.elapsed d t = busy
  polls : stats.polls = BitVec.ofNat 64 (ds.length + if 0 < d then 1 else 0)
  recorded : stats.timestamps.histogram = ds.foldl recordPollDuration histogram
  sum : ds.sum = stats.timestamps.busyTime

theorem metered_new : Metered recordPollDuration histogram (.new histogram) 0 0 0 0 [] where
  current := rfl
  small := Nat.two_pow_pos 64
  started h := absurd h (Nat.lt_irrefl 0)
  busy := rfl
  polls := rfl
  recorded := rfl
  sum := rfl

variable {recordPollDuration histogram} {stats : PollStats H} {d t busy since : Nat}
  {ds : List Nat}

theorem Metered.currentPolls_eq_zero
    (h : Metered recordPollDuration histogram stats d t busy since ds) :
    stats.currentPolls = 0 ↔ d = 0 := by
  rw [h.current]
  constructor
  · intro heq
    have hnat := congrArg BitVec.toNat heq
    rwa [BitVec.toNat_ofNat, Nat.mod_eq_of_lt h.small] at hnat
  · rintro rfl
    rfl

theorem Metered.one_lt_currentPolls
    (h : Metered recordPollDuration histogram stats d t busy since ds) :
    1 < stats.currentPolls ↔ 1 < d := by
  rw [h.current, BitVec.lt_def, BitVec.toNat_ofNat, Nat.mod_eq_of_lt h.small]
  exact Iff.rfl

/-- 進行中の poll があれば、時計が進んだ分だけ増える。 -/
theorem Metered.elapsed_later (h : Metered recordPollDuration histogram stats d t busy since ds)
    {now : Nat} (hnow : t ≤ now) :
    stats.elapsed d now = stats.elapsed d t + if 0 < d then now - t else 0 := by
  unfold elapsed
  split
  · next hd =>
    obtain ⟨hbegun, hle⟩ := h.started hd
    rw [hbegun, Option.getD_some, Option.getD_some]
    omega
  · rfl

theorem Metered.start (h : Metered recordPollDuration histogram stats d t busy since ds) {now : Nat}
    (hnow : t ≤ now) (hsmall : d + 1 < 2 ^ 64) :
    Metered recordPollDuration histogram (stats.startPoll now) (d + 1) now
      (busy + if 0 < d then now - t else 0) (if d = 0 then now else since) ds := by
  unfold startPoll
  by_cases hd : d = 0
  · subst hd
    rw [if_pos (h.currentPolls_eq_zero.mpr rfl)]
    have hbusy := h.busy
    unfold elapsed at hbusy
    refine ⟨?_, hsmall, fun _ => ⟨rfl, Nat.le_refl _⟩, ?_, ?_, h.recorded, h.sum⟩
    · show stats.currentPolls + 1 = _
      rw [h.current]
      rfl
    · show stats.timestamps.busyTime + (now - now) = busy + 0
      simp only [Nat.lt_irrefl, if_false, Nat.add_zero] at hbusy
      omega
    · show stats.polls + 1 = BitVec.ofNat 64 (ds.length + 1)
      rw [h.polls]
      simp [BitVec.ofNat_add]
  · have hpos : 0 < d := Nat.pos_of_ne_zero hd
    rw [if_neg (mt h.currentPolls_eq_zero.mp hd)]
    refine ⟨?_, hsmall, fun _ => ?_, ?_, ?_, h.recorded, h.sum⟩
    · show stats.currentPolls + 1 = _
      rw [h.current, BitVec.ofNat_add]
      rfl
    · obtain ⟨hbegun, hle⟩ := h.started hpos
      rw [if_neg hd]
      exact ⟨hbegun, hle.trans hnow⟩
    · have helapsed := h.elapsed_later hnow
      have hsame : stats.fetchAdd.elapsed (d + 1) now = stats.elapsed d now := by
        simp [elapsed, fetchAdd, hpos]
      rw [hsame, helapsed, ← h.busy, Nat.add_assoc]
      rfl
    · show stats.polls = _
      rw [h.polls, if_pos hpos, if_pos (Nat.succ_pos d)]

theorem Metered.finish (h : Metered recordPollDuration histogram stats d t busy since ds) {now : Nat}
    (hnow : t ≤ now) (hpos : 0 < d) :
    Metered recordPollDuration histogram (stats.endPoll recordPollDuration now) (d - 1) now
      (busy + if 0 < d then now - t else 0) since
      (if d = 1 then ds ++ [now - since] else ds) := by
  obtain ⟨d, rfl⟩ : ∃ d', d = d' + 1 := ⟨d - 1, by omega⟩
  have hcurrent : stats.fetchSub.currentPolls = BitVec.ofNat 64 d := by
    show stats.currentPolls - 1 = _
    rw [h.current, BitVec.ofNat_add]
    exact BitVec.add_sub_cancel _ _
  have hsmall : d < 2 ^ 64 := Nat.lt_of_succ_lt h.small
  obtain ⟨hbegun, hle⟩ := h.started hpos
  have helapsed := h.elapsed_later hnow
  unfold endPoll
  by_cases hd : d = 0
  · -- 最後の poll が終わる
    subst hd
    rw [if_neg (mt h.one_lt_currentPolls.mp (Nat.lt_irrefl 1))]
    have hended : stats.fetchSub.ended recordPollDuration now =
        { stats.fetchSub with timestamps := { stats.timestamps with
          lastPollStarted := some since
          lastPollEnded := some now
          busyTime := stats.timestamps.busyTime + (now - since)
          histogram := recordPollDuration stats.timestamps.histogram (now - since) } } := by
      have hsame : stats.fetchSub.timestamps.lastPollStarted = some since := hbegun
      simp only [ended, hsame]
      rw [if_pos (hle.trans hnow)]
      rfl
    rw [hended, if_pos rfl]
    refine ⟨hcurrent, hsmall, fun hlt => absurd hlt (Nat.lt_irrefl 0), ?_, ?_, ?_, ?_⟩
    · have hnow' : stats.elapsed 1 now = now - since := by
        simp [elapsed, hbegun]
      have hbusy := h.busy
      show stats.timestamps.busyTime + (now - since) + 0 = _
      rw [← hnow', helapsed, ← hbusy]
      omega
    · show stats.polls = _
      rw [h.polls]
      simp
    · show recordPollDuration stats.timestamps.histogram (now - since) = _
      rw [h.recorded, List.foldl_append]
      rfl
    · show (ds ++ [now - since]).sum = stats.timestamps.busyTime + (now - since)
      rw [List.sum_append, h.sum, List.sum_singleton]
  · have hpos' : 0 < d := Nat.pos_of_ne_zero hd
    rw [if_pos (h.one_lt_currentPolls.mpr (by omega))]
    have hne : ¬ d + 1 = 1 := by omega
    rw [if_neg hne]
    refine ⟨hcurrent, hsmall, fun _ => ⟨hbegun, hle.trans hnow⟩, ?_, ?_, h.recorded, h.sum⟩
    · have hsame : stats.fetchSub.elapsed d now = stats.elapsed (d + 1) now := by
        simp [elapsed, fetchSub, hpos']
      show stats.timestamps.busyTime + stats.fetchSub.elapsed d now = _
      rw [hsame, helapsed, ← h.busy, Nat.add_assoc]
    · show stats.polls = BitVec.ofNat 64 (ds.length + if 0 < d then 1 else 0)
      rw [h.polls, if_pos hpos, if_pos hpos']

/-- 最後の呼び出しの時刻。 -/
def lastNow (t : Nat) (calls : List Call) : Nat := calls.foldl (fun _ call => call.now) t

/-- 呼び出しの列の後も、統計は測られている。 -/
theorem Metered.calls (calls : List Call) (hlegal : Legal d t calls)
    (h : Metered recordPollDuration histogram stats d t busy since ds) :
    ∃ since', Metered recordPollDuration histogram
      (calls.foldl (PollStats.call recordPollDuration) stats) (calls.foldl Call.depth d)
      (lastNow t calls) (busy + occupied d t calls) since' (ds ++ periods d since calls) := by
  induction calls generalizing stats d t busy since ds with
  | nil =>
    refine ⟨since, ?_⟩
    rw [periods, List.append_nil]
    exact h
  | cons call calls ih =>
    obtain ⟨hnow, hfinish, hsmall, hrest⟩ := hlegal
    rw [List.foldl_cons, List.foldl_cons, occupied, ← Nat.add_assoc]
    cases call with
    | start now => exact ih hrest (h.start hnow hsmall)
    | finish now =>
      obtain ⟨since', h'⟩ := ih hrest (h.finish hnow (hfinish now rfl))
      refine ⟨since', ?_⟩
      have hds : ds ++ periods d since (.finish now :: calls) =
          (if d = 1 then ds ++ [now - since] else ds) ++ periods (d - 1) since calls := by
        rw [periods]
        split
        · next hd => simp [hd]
        · rfl
      rw [hds]
      exact h'

end PollStats

/-! ## `Histogram` -/

/-- 記録される値は、上限で切った長さである。 -/
def Histogram.clamp (max duration : Nat) : Nat := min (duration % 2 ^ 64) max

/-- 上限を越えた長さ。 -/
def Histogram.beyond (max : Nat) (ds : List Nat) : List Nat :=
  (ds.map (· % 2 ^ 64)).filter (max < ·)

/-- 越えた長さの最大。 -/
def Histogram.highest (outlier : Option Nat) (duration : Nat) : Option Nat :=
  some (Nat.max (outlier.getD duration) duration)

/-- 記録された長さは、上限で切って一つずつ残り、越えたものは数えられる。 -/
theorem Histogram.foldl_record {H : Type} (record : H → Nat → H) (this : Histogram H)
    (ds : List Nat) :
    ds.foldl (recordPollDuration record) this =
      { histogram := (ds.map (clamp this.max)).foldl record this.histogram
        max := this.max
        outliers := this.outliers + (beyond this.max ds).length
        maxOutlier := (beyond this.max ds).foldl highest this.maxOutlier } := by
  induction ds generalizing this with
  | nil => rfl
  | cons d ds ih =>
    rw [List.foldl_cons, ih]
    by_cases hd : this.max < d % 2 ^ 64
    · have hstep : recordPollDuration record this d = { this with
          outliers := this.outliers + 1
          maxOutlier := highest this.maxOutlier (d % 2 ^ 64)
          histogram := record this.histogram (clamp this.max d) } := by
        have hclamp : clamp this.max d = this.max := Nat.min_eq_right hd.le
        unfold recordPollDuration
        dsimp only
        rw [if_pos hd, hclamp]
        cases this.maxOutlier with
        | none => simp [highest]
        | some outlier => rfl
      have hbeyond : beyond this.max (d :: ds) = d % 2 ^ 64 :: beyond this.max ds := by
        unfold beyond
        rw [List.map_cons, List.filter_cons, if_pos (decide_eq_true hd)]
      rw [hstep, hbeyond, List.map_cons, List.foldl_cons, List.foldl_cons, List.length_cons]
      dsimp only
      rw [Nat.add_assoc, Nat.add_comm 1]
    · have hstep : recordPollDuration record this d = { this with
          histogram := record this.histogram (clamp this.max d) } := by
        have hclamp : clamp this.max d = d % 2 ^ 64 := Nat.min_eq_left (Nat.le_of_not_lt hd)
        unfold recordPollDuration
        dsimp only
        rw [if_neg hd, hclamp]
      have hbeyond : beyond this.max (d :: ds) = beyond this.max ds := by
        unfold beyond
        rw [List.map_cons, List.filter_cons, if_neg (mt of_decide_eq_true hd)]
      rw [hstep, hbeyond, List.map_cons, List.foldl_cons]

/-! ## task の統計 -/

/--
**一つずつ呼ばれる `start_poll` と `end_poll` のどんな列の後でも、`busy_time` に始まっている poll の時間を
足したものは、poll が一つでもあった時間の合計である。**

重なった poll は一つの区間に数えられる。`polls` は区間の数で、終わった区間の長さは histogram に一度ずつ、
上限で切って記録される。
-/
theorem busy_time_exact {H : Type} (record : H → Nat → H) (histogram : H) (max : Nat)
    (calls : List PollStats.Call) (hlegal : PollStats.Legal 0 0 calls) :
    ∃ stats : PollStats (Histogram H),
      calls.foldl (PollStats.call (Histogram.recordPollDuration record))
        (.new ⟨histogram, max, 0, none⟩) = stats ∧
      stats.currentPolls = BitVec.ofNat 64 (calls.foldl PollStats.Call.depth 0) ∧
      stats.timestamps.busyTime +
        stats.elapsed (calls.foldl PollStats.Call.depth 0) (PollStats.lastNow 0 calls) =
        PollStats.occupied 0 0 calls ∧
      stats.polls = BitVec.ofNat 64 ((PollStats.periods 0 0 calls).length +
        if 0 < calls.foldl PollStats.Call.depth 0 then 1 else 0) ∧
      (PollStats.periods 0 0 calls).sum = stats.timestamps.busyTime ∧
      stats.timestamps.histogram =
        { histogram :=
            ((PollStats.periods 0 0 calls).map (Histogram.clamp max)).foldl record histogram
          max
          outliers := (Histogram.beyond max (PollStats.periods 0 0 calls)).length
          maxOutlier :=
            (Histogram.beyond max (PollStats.periods 0 0 calls)).foldl Histogram.highest none } := by
  obtain ⟨since, h⟩ := PollStats.Metered.calls calls hlegal
    (PollStats.metered_new (Histogram.recordPollDuration record) ⟨histogram, max, 0, none⟩)
  rw [List.nil_append] at h
  refine ⟨_, rfl, h.current, h.busy.trans (Nat.zero_add _), h.polls, h.sum, ?_⟩
  rw [h.recorded, Histogram.foldl_record]
  simp

/-- 重なった二つの poll の後に、短い poll がある。 -/
def overlappingPolls : List PollStats.Call :=
  [.start 3, .start 5, .finish 9, .finish 14, .start 20, .finish 22]

theorem busy_time_exact_overlappingPolls :
    PollStats.occupied 0 0 overlappingPolls = 13 ∧
    PollStats.periods 0 0 overlappingPolls = [11, 2] ∧
    ∃ stats : PollStats (Histogram (List Nat)),
      overlappingPolls.foldl (PollStats.call (Histogram.recordPollDuration fun l d => l ++ [d]))
        (.new ⟨[], 10, 0, none⟩) = stats ∧
      stats.timestamps.busyTime + stats.elapsed 0 22 = 13 ∧ stats.polls = 2 ∧
      stats.timestamps.histogram = ⟨[10, 2], 10, 1, some 11⟩ := by
  have hlegal : PollStats.Legal 0 0 overlappingPolls := by
    simp [overlappingPolls, PollStats.Legal, PollStats.Call.depth, PollStats.Call.now]
  have hoccupied : PollStats.occupied 0 0 overlappingPolls = 13 := by decide
  have hperiods : PollStats.periods 0 0 overlappingPolls = [11, 2] := by decide
  obtain ⟨stats, hstats, _, hbusy, hpolls, _, hhistogram⟩ :=
    busy_time_exact (fun l d => l ++ [d]) [] 10 overlappingPolls hlegal
  rw [hperiods] at hpolls hhistogram
  exact ⟨hoccupied, hperiods, stats, hstats, hbusy.trans hoccupied, hpolls, hhistogram⟩

end FabAccess.Console
