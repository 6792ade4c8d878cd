import Mathlib.Data.List.TakeWhile
import FabAccess.Infra.Lines
import FabAccess.Initiators.Process

/-!
# process initiator の行

`try_process` の loop は、二つ目の空でない行か、改行の後の行に出会うと、位置を誤って後ろに戻り、
同じ行を渡し続けて終わらない（`twoLines_never_returns`）。

* `OneLine` — buffer にある空でない行は高々一つで、その前に改行が無い
* `scan_oneLine`・`scan_diverges` — loop が正しく終わるのは、ちょうどそのときである
* `lines_whole_iff` — 渡された行が、読んだ byte 列の行と一致し続けるための条件
-/

namespace FabAccess

open Infra

variable {β : Type} {handle : β → List UInt8 → β} {acc : β} {b line rest : List UInt8}

/-- 空でない行の終わりより前に、改行が無い。 -/
def OneLine (b : List UInt8) : Prop :=
  ∀ pre x post, b = pre ++ x :: newline :: post → x ≠ newline → newline ∉ pre

/-! ## 行を探す loop -/

theorem findIdx?_newline_none (h : newline ∉ b) : b.findIdx? (· == newline) = none := by
  rw [List.findIdx?_eq_none_iff]
  intro x hx
  rw [beq_eq_false_iff_ne]
  rintro rfl
  exact h hx

/-- 初めの改行は、行のすぐ後にある。 -/
theorem findIdx?_newline_append (hline : newline ∉ line) (rest : List UInt8) :
    (line ++ newline :: rest).findIdx? (· == newline) = some line.length := by
  rw [List.findIdx?_append, findIdx?_newline_none hline]
  simp [List.findIdx?_cons]

/-- 続く改行を一つずつ進む。 -/
theorem scan_newlines (handle : β → List UInt8 → β) (acc : β) (hrest : newline ∉ rest) (n : Nat) :
    ∀ (pre : List UInt8) (fuel : Nat), n + 1 ≤ fuel →
      scan handle (pre ++ (List.replicate n newline ++ rest)) fuel pre.length acc =
        some (pre.length + n, acc) := by
  induction n with
  | zero =>
    intro pre fuel hfuel
    obtain ⟨fuel, rfl⟩ : ∃ m, fuel = m + 1 := ⟨fuel - 1, by omega⟩
    simp [scan, findIdx?_newline_none hrest]
  | succ n ih =>
    intro pre fuel hfuel
    obtain ⟨fuel, rfl⟩ : ∃ m, fuel = m + 1 := ⟨fuel - 1, by omega⟩
    have hrec := ih (pre ++ [newline]) fuel (by omega)
    rw [List.length_append, List.length_singleton, List.append_assoc, List.singleton_append] at hrec
    rw [List.replicate_succ, List.cons_append, scan, List.drop_left]
    simp only [List.findIdx?_cons, beq_self_eq_true, if_true]
    rw [hrec, Nat.add_right_comm, Nat.add_assoc]

/-- 初めの行を渡し終えると、`end` はその行の長さになる。 -/
theorem scan_line (hne : line ≠ []) (hline : newline ∉ line) (rest : List UInt8) (fuel : Nat) :
    scan handle (line ++ newline :: rest) (fuel + 1) 0 acc =
      scan handle (line ++ newline :: rest) fuel line.length (handle acc line) := by
  rw [scan, List.drop_zero, findIdx?_newline_append hline]
  simp [hne]

/-- 一行だけの buffer は、行と、続く改行と、残りである。 -/
theorem OneLine.split (h : OneLine b) (hmem : newline ∈ b) :
    ∃ line n rest, b = line ++ newline :: (List.replicate n newline ++ rest) ∧
      newline ∉ line ∧ newline ∉ rest := by
  obtain ⟨line, tail, rfl, hline⟩ := List.eq_append_cons_of_mem hmem
  refine ⟨line, (tail.takeWhile (· == newline)).length, tail.dropWhile (· == newline), ?_, hline, ?_⟩
  · have htake : List.replicate (tail.takeWhile (· == newline)).length newline =
        tail.takeWhile (· == newline) := by
      refine (List.eq_replicate_of_mem fun x hx => ?_).symm
      simpa using List.mem_takeWhile_imp hx
    rw [htake, List.takeWhile_append_dropWhile]
  · intro hrest
    obtain ⟨pre, post, heq, hpre⟩ := List.eq_append_cons_of_mem hrest
    rcases List.eq_nil_or_concat pre with rfl | ⟨pre', x, rfl⟩
    · have := List.head?_dropWhile_not (· == newline) tail
      rw [heq] at this
      simp at this
    · have hx : x ≠ newline := by
        rintro rfl
        exact hpre (by simp)
      refine h (line ++ newline :: (tail.takeWhile (· == newline) ++ pre')) x post ?_ hx (by simp)
      conv_lhs => rw [← List.takeWhile_append_dropWhile (p := (· == newline)) (l := tail), heq]
      simp

/-- 一行だけの buffer では、loop は行を渡して、最後の改行の後で止まる。 -/
theorem scan_oneLine (h : OneLine b) (handle : β → List UInt8 → β) (acc : β) :
    ∃ e ≤ b.length, b.drop e = remainder newline b ∧ ∀ fuel, b.length + 2 ≤ fuel →
      scan handle b fuel 0 acc = some (e, (completeLines newline b).foldl handle acc) := by
  by_cases hmem : newline ∈ b
  · obtain ⟨line, n, rest, rfl, hline, hrest⟩ := h.split hmem
    obtain ⟨hlines, hrem⟩ := completeLines_line n hline hrest
    -- 行を渡した後の位置は最初の改行で、そこから続く改行を一つずつ越える
    have hpast : ∀ acc fuel, n + 2 ≤ fuel →
        scan handle (line ++ newline :: (List.replicate n newline ++ rest)) fuel line.length acc =
          some (line.length + (n + 1), acc) := by
      intro acc fuel hfuel
      have hscan := scan_newlines handle acc hrest (n + 1) line fuel hfuel
      rwa [List.replicate_succ] at hscan
    refine ⟨line.length + (n + 1), ?_, ?_, fun fuel hfuel => ?_⟩
    · simp only [List.length_append, List.length_cons, List.length_replicate]
      omega
    · rw [hrem, List.drop_append]
      simp
    · rw [hlines]
      simp only [List.length_append, List.length_cons, List.length_replicate] at hfuel
      by_cases hnil : line = []
      · have hscan := hpast acc fuel (by omega)
        rw [hnil] at hscan ⊢
        simpa using hscan
      · obtain ⟨fuel, rfl⟩ : ∃ m, fuel = m + 1 := ⟨fuel - 1, by omega⟩
        rw [scan_line hnil hline, hpast _ fuel (by omega)]
        simp [hnil]
  · refine ⟨0, Nat.zero_le _, by rw [List.drop_zero, remainder_of_notMem hmem], fun fuel hfuel => ?_⟩
    obtain ⟨fuel, rfl⟩ : ∃ m, fuel = m + 1 := ⟨fuel - 1, by omega⟩
    simp [scan, findIdx?_newline_none hmem, completeLines_of_notMem hmem]

/-- 二つ目の行、または改行の後の行があれば、loop は終わらない。 -/
theorem scan_diverges (h : ¬ OneLine b) (handle : β → List UInt8 → β) (fuel : Nat) (acc : β) :
    scan handle b fuel 0 acc = none := by
  simp only [OneLine, not_forall, not_not] at h
  obtain ⟨pre, x, post, rfl, hx, hpre⟩ := h
  -- 位置は、行の最後の byte `x` を越えない
  suffices hstuck : ∀ fuel e acc, e ≤ pre.length →
      scan handle (pre ++ x :: newline :: post) fuel e acc = none from
    hstuck fuel 0 acc (Nat.zero_le _)
  intro fuel
  induction fuel with
  | zero => intro e acc _; rfl
  | succ fuel ih =>
    intro e acc he
    have hdrop : (pre ++ x :: newline :: post).drop e = pre.drop e ++ x :: newline :: post :=
      List.drop_append_of_le_length he
    rw [scan, hdrop]
    by_cases hmem : newline ∈ pre.drop e
    · obtain ⟨l, r, heq, hl⟩ := List.eq_append_cons_of_mem hmem
      have hlen : l.length + 1 ≤ pre.length - e := by
        rw [← List.length_drop, heq]
        simp
      rw [heq, List.append_assoc, List.cons_append, findIdx?_newline_append hl]
      dsimp only
      split
      · exact ih (e + 1) acc (by omega)
      · exact ih l.length _ (by omega)
    · have he0 : e ≠ 0 := by
        rintro rfl
        exact hmem hpre
      have hline : newline ∉ pre.drop e ++ [x] := by
        simp [hmem, hx.symm]
      rw [List.append_cons, findIdx?_newline_append hline]
      dsimp only
      have hlen : (pre.drop e ++ [x]).length = pre.length - e + 1 := by simp
      rw [if_neg (by omega)]
      exact ih _ _ (by omega)

/-- loop が終わるかどうかは、計算で確かめられる。 -/
theorem oneLine_iff_scan :
    OneLine b ↔ (scan (fun (u : Unit) _ => u) b (b.length + 2) 0 ()).isSome := by
  constructor
  · intro h
    obtain ⟨e, _, _, hscan⟩ := scan_oneLine h (fun (u : Unit) _ => u) ()
    rw [hscan _ (Nat.le_refl _)]
    rfl
  · intro h
    by_contra hnot
    rw [scan_diverges hnot] at h
    cases h

/-! ## 読み出し -/

/-- `poll_read` はいつか `Pending` か誤りを返す。 -/
def Ends (turns : List ReadTurn) : Prop := ∃ t ∈ turns, ∀ data, t.answer ≠ .ok data

/-- 読んだ byte 列は、中身の後ろに加わる。 -/
theorem readLoop_spec {turns : List ReadTurn} (hends : Ends turns) : ∀ {lb : LineBuffer}, lb.WF →
    ∃ lb' failed read, readLoop lb turns = some (lb', failed, read) ∧ lb'.WF ∧
      lb'.deref = lb.deref ++ read := by
  induction turns with
  | nil =>
    obtain ⟨t, ht, _⟩ := hends
    simp at ht
  | cons t turns ih =>
    intro lb hwf
    obtain ⟨memory, answer⟩ := t
    obtain ⟨hwf₁, hderef₁⟩ := LineBuffer.getMutWrite_spec hwf 512 memory
    cases answer with
    | pending => exact ⟨_, _, [], rfl, hwf₁, by rw [hderef₁, List.append_nil]⟩
    | error => exact ⟨_, _, [], rfl, hwf₁, by rw [hderef₁, List.append_nil]⟩
    | ok data =>
      obtain ⟨hwf₂, hderef₂⟩ := LineBuffer.write_advance_spec hwf₁ data
      have hends' : Ends turns := by
        obtain ⟨t, ht, hans⟩ := hends
        rcases List.mem_cons.mp ht with rfl | ht
        · exact absurd rfl (hans data)
        · exact ⟨t, ht, hans⟩
      obtain ⟨lb', failed, more, hloop, hwf', hderef'⟩ := ih hends' hwf₂
      refine ⟨lb', failed, data.take (lb.getMutWrite 512 memory).slice.length ++ more, ?_, hwf', ?_⟩
      · simp only [readLoop, hloop]
      · rw [hderef', hderef₂, hderef₁, List.append_assoc]

/-! ## 一回の `poll` -/

variable (parse : String → Option Status)

/-- 渡された行は読んだ byte 列の行であり、buffer にはその残りがある。 -/
structure Process.Tracks (p : Process) : Prop where
  buffer : p.buffer.WF
  errBuffer : p.errBuffer.WF
  remainder : p.buffer.deref = remainder newline p.read
  handed : p.callbacks.handed = completeLines newline p.read

/-- 読み終わったときの buffer に、高々一行しかない。誤りで終わるときは一行も無い。 -/
def PollInput.Whole (i : PollInput) (p : Process) : Prop :=
  i.status = .running → ∀ lb failed read, readLoop p.buffer i.stdout = some (lb, failed, read) →
    if failed then completeLines newline (p.buffer.deref ++ read) = []
    else OneLine (p.buffer.deref ++ read)

/-- `poll` が返る。 -/
def Process.Returns (p : Process) (i : PollInput) (ready : Bool) (p' : Process) : Prop :=
  ∃ n, ∀ fuel, n ≤ fuel → p.poll parse fuel i = some (ready, p')

/-- fuel を増やしても、終わった走査の結果は変わらない。 -/
theorem scan_mono (handle : β → List UInt8 → β) {r : Nat × β} {m : Nat} : ∀ {n e : Nat} {acc : β},
    scan handle b n e acc = some r → n ≤ m → scan handle b m e acc = some r := by
  induction m with
  | zero =>
    intro n e acc h hnm
    obtain rfl : n = 0 := by omega
    cases h
  | succ m ih =>
    intro n e acc h hnm
    cases n with
    | zero => cases h
    | succ n =>
      rw [scan] at h ⊢
      split at h
      · exact h
      · split at h
        · next h0 =>
          rw [if_pos h0]
          exact ih h (by omega)
        · next h0 =>
          rw [if_neg h0]
          exact ih h (by omega)

/-- 渡された行は、渡された順に記録される。 -/
theorem foldl_processLine (lines : List (List UInt8)) (callbacks : Callbacks) :
    (lines.foldl (processLine parse) callbacks).handed = callbacks.handed ++ lines := by
  induction lines generalizing callbacks with
  | nil => simp
  | cons line lines ih =>
    rw [List.foldl_cons, ih]
    simp [processLine]

variable {parse} {p p' : Process} {i : PollInput} {fuel : Nat} {lb : LineBuffer}
  {read : List UInt8}

/-- 一度返った `poll` は、深さを増やしても同じように返る。 -/
theorem returns_of_poll {ready : Bool} (h : p.poll parse fuel i = some (ready, p')) :
    p.Returns parse i ready p' := by
  refine ⟨fuel, fun m hm => ?_⟩
  cases hstatus : i.status with
  | exited | error =>
    simp only [Process.poll, hstatus] at h ⊢
    exact h
  | running =>
    simp only [Process.poll, hstatus, Option.bind_eq_bind, Option.bind_eq_some_iff] at h ⊢
    -- 深さに依るのは、stdout と stderr の二つの `scan` だけである
    obtain ⟨r₁, hread, h⟩ := h
    refine ⟨r₁, hread, ?_⟩
    split at h
    · next hfailed =>
      rw [if_pos hfailed]
      exact h
    · next hfailed =>
      rw [if_neg hfailed]
      simp only [Option.bind_eq_some_iff] at h ⊢
      obtain ⟨r₂, hscan, lb, hconsume, h⟩ := h
      refine ⟨r₂, scan_mono _ hscan hm, lb, hconsume, ?_⟩
      split at h
      · next hclosed =>
        rw [if_pos hclosed]
        simp only [Option.bind_eq_some_iff] at h ⊢
        obtain ⟨p₁, hp₁, r₃, hlog, h⟩ := h
        exact ⟨p₁, hp₁, r₃, scan_mono _ hlog hm, h⟩
      · next hclosed =>
        rw [if_neg hclosed]
        simp only [Option.bind_eq_some_iff] at h ⊢
        obtain ⟨r, hr, p₁, hp₁, r₃, hlog, h⟩ := h
        exact ⟨r, hr, p₁, hp₁, r₃, scan_mono _ hlog hm, h⟩

/-- 子が終わっていれば、何も読まずに Ready になる。 -/
theorem poll_stopped (hstatus : i.status ≠ .running) : p.poll parse fuel i = some (true, p) := by
  cases h : i.status with
  | running => exact absurd h hstatus
  | exited => simp only [Process.poll, h]
  | error => simp only [Process.poll, h]

/-- 読み込みが失敗すれば、行を渡さずに Ready になる。 -/
theorem poll_failed (hstatus : i.status = .running)
    (hread : readLoop p.buffer i.stdout = some (lb, true, read)) :
    p.poll parse fuel i = some (true, { p with buffer := lb, read := p.read ++ read }) := by
  simp [Process.poll, hstatus, hread]

/-- 一行だけの buffer での `poll`。 -/
theorem poll_oneLine (hp : p.Tracks) (hstatus : i.status = .running) (herr : Ends i.stderr)
    (hread : readLoop p.buffer i.stdout = some (lb, false, read)) (hwf : lb.WF)
    (hderef : lb.deref = p.buffer.deref ++ read) (hone : OneLine (p.buffer.deref ++ read)) :
    ∃ p', p.Returns parse i false p' ∧ p'.Tracks ∧ p'.read = p.read ++ read := by
  rw [← hderef] at hone
  obtain ⟨e, he, hdrop, hscan⟩ := scan_oneLine hone (processLine parse) p.callbacks
  obtain ⟨lb', hconsume, hwf', hderef'⟩ := LineBuffer.consume_ok hwf he
  rw [hdrop] at hderef'
  -- stderr の loop が見るのも `lb'` で、そこに改行は残っていない
  have hnone : newline ∉ lb'.deref := by
    rw [hderef']
    exact notMem_remainder _ _
  have hskip : ∀ (logged : List (List UInt8)) fuel, 1 ≤ fuel →
      scan (fun logged line => logged ++ [line]) lb'.deref fuel 0 logged = some (0, logged) := by
    intro logged fuel hfuel
    obtain ⟨fuel, rfl⟩ : ∃ m, fuel = m + 1 := ⟨fuel - 1, by omega⟩
    simp [scan, findIdx?_newline_none hnone]
  have hrem : lb'.deref = remainder newline (p.read ++ read) := by
    rw [hderef', hderef, hp.remainder, ← remainder_append]
  have hhanded : ((completeLines newline lb.deref).foldl (processLine parse) p.callbacks).handed =
      completeLines newline (p.read ++ read) := by
    rw [foldl_processLine, hp.handed, hderef, hp.remainder, ← completeLines_append]
  cases hclosed : p.stderrClosed with
  | true =>
    obtain ⟨eb, hec, hwfe, _⟩ := LineBuffer.consume_spec hp.errBuffer (Nat.zero_le _)
    refine ⟨⟨lb', eb, true, _, p.read ++ read, p.errRead, p.logged⟩,
      ⟨lb.deref.length + 2, fun fuel hfuel => ?_⟩, ⟨hwf', hwfe, hrem, hhanded⟩, rfl⟩
    simp [Process.poll, hstatus, hread, tryProcess, hscan fuel hfuel, hconsume, hclosed,
      hskip _ fuel (by omega), hec]
  | false =>
    obtain ⟨eb, failed, eread, hloop, hwfe, _⟩ := readLoop_spec herr hp.errBuffer
    obtain ⟨eb', hec, hwfe', _⟩ := LineBuffer.consume_spec hwfe (Nat.zero_le _)
    refine ⟨⟨lb', eb', failed, _, p.read ++ read, p.errRead ++ eread, p.logged⟩,
      ⟨lb.deref.length + 2, fun fuel hfuel => ?_⟩, ⟨hwf', hwfe', hrem, hhanded⟩, rfl⟩
    simp [Process.poll, hstatus, hread, tryProcess, hscan fuel hfuel, hconsume, hclosed, hloop,
      hskip _ fuel (by omega), hec]

/-- 走査が終わらなければ、poll は返らない。 -/
theorem poll_diverges (hstatus : i.status = .running)
    (hread : readLoop p.buffer i.stdout = some (lb, false, read))
    (hderef : lb.deref = p.buffer.deref ++ read) (hone : ¬ OneLine (p.buffer.deref ++ read)) :
    p.poll parse fuel i = none := by
  rw [← hderef] at hone
  simp [Process.poll, hstatus, hread, tryProcess, scan_diverges hone]

/-- 条件を満たす `poll` は返り、渡された行は読んだ byte 列の行である。 -/
theorem poll_whole (parse : String → Option Status) (hp : p.Tracks) (hout : Ends i.stdout)
    (herr : Ends i.stderr) (h : i.Whole p) :
    ∃ ready p', p.Returns parse i ready p' ∧
      p'.callbacks.handed = completeLines newline p'.read ∧ (ready = false → p'.Tracks) := by
  by_cases hstatus : i.status = .running
  · obtain ⟨lb, failed, read, hread, hwf, hderef⟩ := readLoop_spec hout hp.buffer
    have hcond := h hstatus lb failed read hread
    cases failed with
    | true =>
      refine ⟨true, _, ⟨0, fun fuel _ => poll_failed hstatus hread⟩, ?_, by simp⟩
      rw [hp.remainder, if_pos rfl] at hcond
      rw [completeLines_append, hcond, List.append_nil]
      exact hp.handed
    | false =>
      obtain ⟨p', hret, htracks, _⟩ :=
        poll_oneLine hp hstatus herr hread hwf hderef (by simpa using hcond)
      exact ⟨false, p', hret, htracks.handed, fun _ => htracks⟩
  · exact ⟨true, p, ⟨0, fun fuel _ => poll_stopped hstatus⟩, hp.handed, by simp⟩

/-- 条件を満たさない `poll` は返らないか、渡さない行を残して終わる。 -/
theorem poll_not_whole (parse : String → Option Status) (hp : p.Tracks) (hout : Ends i.stdout)
    (h : ¬ i.Whole p) :
    (∀ fuel, p.poll parse fuel i = none) ∨
    ∃ p', (∀ fuel, p.poll parse fuel i = some (true, p')) ∧
      p'.callbacks.handed ≠ completeLines newline p'.read := by
  by_cases hstatus : i.status = .running
  · obtain ⟨lb, failed, read, hread, hwf, hderef⟩ := readLoop_spec hout hp.buffer
    have hcond : ¬ if failed = true then completeLines newline (p.buffer.deref ++ read) = []
        else OneLine (p.buffer.deref ++ read) := by
      intro hc
      refine h fun _ lb' failed' read' hread' => ?_
      rw [hread] at hread'
      cases hread'
      exact hc
    cases failed with
    | true =>
      refine Or.inr ⟨_, fun fuel => poll_failed hstatus hread, fun heq => hcond ?_⟩
      rw [if_pos rfl, hp.remainder]
      rw [completeLines_append, show p.callbacks.handed = _ from hp.handed] at heq
      exact List.self_eq_append_right.mp heq
    | false =>
      exact Or.inl fun fuel => poll_diverges hstatus hread hderef (by simpa using hcond)
  · exact absurd (fun hrun => absurd hrun hstatus) h

/-! ## `poll` の列 -/

variable (parse) in
/-- どの `poll` の後でも、次の `poll` は条件を満たす。 -/
def Calm (p : Process) : List PollInput → Prop
  | [] => True
  | i :: is => i.Whole p ∧ ∀ p', p.Returns parse i false p' → Calm p' is

variable (parse) in
/-- `poll` がすべて返り、渡された行は読んだ byte 列の行である。 -/
def Handed (p : Process) (is : List PollInput) : Prop :=
  ∃ p', (∃ n, ∀ fuel, n ≤ fuel → p.polls parse fuel is = some p') ∧
    p'.callbacks.handed = completeLines newline p'.read

/-- poll の結果は一つである。 -/
theorem Process.Returns.unique {ready ready' : Bool} {p'' : Process}
    (h : p.Returns parse i ready p') (h' : p.Returns parse i ready' p'') :
    ready = ready' ∧ p' = p'' := by
  obtain ⟨n, hn⟩ := h
  obtain ⟨m, hm⟩ := h'
  have heq := hn (max n m) (Nat.le_max_left _ _)
  rw [hm (max n m) (Nat.le_max_right _ _)] at heq
  cases heq
  exact ⟨rfl, rfl⟩

/-- 返って続く `poll` の後は、残りの `poll` である。 -/
theorem handed_cons {is : List PollInput} (h : p.Returns parse i false p') :
    Handed parse p (i :: is) ↔ Handed parse p' is := by
  obtain ⟨n, hn⟩ := h
  constructor
  · rintro ⟨q, ⟨m, hm⟩, hq⟩
    refine ⟨q, ⟨max n m, fun fuel hfuel => ?_⟩, hq⟩
    have hrun := hm fuel (by omega)
    rwa [Process.polls, hn fuel (by omega)] at hrun
  · rintro ⟨q, ⟨m, hm⟩, hq⟩
    refine ⟨q, ⟨max n m, fun fuel hfuel => ?_⟩, hq⟩
    rw [Process.polls, hn fuel (by omega)]
    exact hm fuel (by omega)

/-- Ready になった後は、poll されない。 -/
theorem handed_cons_ready {is : List PollInput} (h : p.Returns parse i true p')
    (hp' : p'.callbacks.handed = completeLines newline p'.read) : Handed parse p (i :: is) := by
  obtain ⟨n, hn⟩ := h
  refine ⟨p', ⟨n, fun fuel hfuel => ?_⟩, hp'⟩
  rw [Process.polls, hn fuel hfuel]

/-- 穏やかな実行では、終わった行がその順に渡される。 -/
theorem handed_of_calm {is : List PollInput} (hends : ∀ i ∈ is, Ends i.stdout ∧ Ends i.stderr) :
    ∀ {p : Process}, p.Tracks → Calm parse p is → Handed parse p is := by
  induction is with
  | nil =>
    intro p hp _
    exact ⟨p, ⟨0, fun _ _ => rfl⟩, hp.handed⟩
  | cons i is ih =>
    intro p hp hcalm
    obtain ⟨hout, herr⟩ := hends i (by simp)
    obtain ⟨ready, p', hret, hhanded, htracks⟩ := poll_whole parse hp hout herr hcalm.1
    cases ready with
    | true => exact handed_cons_ready hret hhanded
    | false =>
      rw [handed_cons hret]
      exact ih (fun j hj => hends j (by simp [hj])) (htracks rfl) (hcalm.2 p' hret)

/-- 穏やかな実行は、途中で切っても穏やかである。 -/
theorem Calm.take {is is' : List PollInput} (hpre : is' <+: is) :
    ∀ {p : Process}, Calm parse p is → Calm parse p is' := by
  obtain ⟨tail, rfl⟩ := hpre
  induction is' with
  | nil => intro p _; trivial
  | cons i is' ih =>
    intro p hcalm
    exact ⟨hcalm.1, fun p' hret => ih (hcalm.2 p' hret)⟩

/-- 途中のどこでも終わった行が渡されているなら、実行は穏やかである。 -/
theorem calm_of_handed {is : List PollInput} (hends : ∀ i ∈ is, Ends i.stdout ∧ Ends i.stderr) :
    ∀ {p : Process}, p.Tracks → (∀ is', is' <+: is → Handed parse p is') → Calm parse p is := by
  induction is with
  | nil => intro p _ _; trivial
  | cons i is ih =>
    intro p hp h
    obtain ⟨hout, herr⟩ := hends i (by simp)
    have hwhole : i.Whole p := by
      by_contra hnot
      obtain ⟨q, ⟨n, hn⟩, hq⟩ := h [i] (by simp)
      have hrun := hn n (Nat.le_refl n)
      rcases poll_not_whole parse hp hout hnot with hnone | ⟨p', hready, hne⟩
      · rw [Process.polls, hnone] at hrun
        cases hrun
      · rw [Process.polls, hready] at hrun
        cases hrun
        exact hne hq
    refine ⟨hwhole, fun p' hret => ih (fun j hj => hends j (by simp [hj])) ?_ fun is' hpre => ?_⟩
    · obtain ⟨ready, p'', hret', _, htracks⟩ := poll_whole parse hp hout herr hwhole
      obtain ⟨rfl, rfl⟩ := hret.unique hret'
      exact htracks rfl
    · rw [← handed_cons hret]
      exact h (i :: is') (by simpa using hpre)

/-- 初めは、何も読まれていない。 -/
theorem tracks_new : Process.new.Tracks where
  buffer := LineBuffer.wf_new
  errBuffer := LineBuffer.wf_new
  remainder := by simp [Process.new, LineBuffer.new, LineBuffer.deref, remainder]
  handed := by simp [Process.new, completeLines]

/--
どの `poll` までを見ても、`poll` がすべて返り、`process_line` に渡された行が、そこまでに読んだ
byte 列の空でない行とちょうど一致するのは、どの `poll` でも、読み終わったときの buffer にある
空でない行が高々一つで、その前に改行が無いとき、そのときに限る。
-/
theorem lines_whole_iff (parse : String → Option Status) (is : List PollInput)
    (hends : ∀ i ∈ is, Ends i.stdout ∧ Ends i.stderr) :
    (∀ is', is' <+: is → Handed parse Process.new is') ↔ Calm parse Process.new is := by
  constructor
  · intro h
    exact calm_of_handed hends tracks_new h
  · intro h is' hpre
    exact handed_of_calm (fun i hi => hends i (hpre.subset hi)) tracks_new (h.take hpre)

/-- 読み終わったときの buffer。 -/
def PollInput.filled (i : PollInput) (p : Process) : Option (Bool × List UInt8) :=
  (readLoop p.buffer i.stdout).map fun t => (t.2.1, p.buffer.deref ++ t.2.2)

theorem filled_eq {failed failed' : Bool} (h : i.filled p = some (failed, b))
    (hread : readLoop p.buffer i.stdout = some (lb, failed', read)) :
    failed' = failed ∧ p.buffer.deref ++ read = b := by
  rw [PollInput.filled, hread] at h
  cases h
  exact ⟨rfl, rfl⟩

theorem whole_of_filled (h : i.filled p = some (false, b)) (hone : OneLine b) : i.Whole p := by
  intro _ lb failed read hread
  obtain ⟨rfl, heq⟩ := filled_eq h hread
  rw [heq]
  exact hone

/-- 見えるようになる領域。 -/
def freshMemory : List UInt8 := List.replicate 512 0

def readPoll (data : List UInt8) : PollInput :=
  ⟨.running, [⟨freshMemory, .ok data⟩, ⟨freshMemory, .pending⟩], [⟨freshMemory, .pending⟩]⟩

theorem readPoll_ends (data : List UInt8) :
    Ends (readPoll data).stdout ∧ Ends (readPoll data).stderr := by
  constructor
  · exact ⟨⟨freshMemory, .pending⟩, by simp [readPoll], by simp⟩
  · exact ⟨⟨freshMemory, .pending⟩, by simp [readPoll], by simp⟩

/-- 行 `ab` が二回の `poll` にまたがり、二回目には空行と次の行の初めも届く。 -/
def spanning : List PollInput := [readPoll "a".toUTF8.data.toList, readPoll "b\n\nc".toUTF8.data.toList]

theorem lines_whole_iff_spanning :
    Calm (fun _ => none) Process.new spanning ∧ Handed (fun _ => none) Process.new spanning := by
  have hends : ∀ i ∈ spanning, Ends i.stdout ∧ Ends i.stderr := by
    intro i hi
    simp only [spanning, List.mem_cons, List.not_mem_nil, or_false] at hi
    rcases hi with rfl | rfl
    · exact readPoll_ends _
    · exact readPoll_ends _
  have hcalm : Calm (fun _ => none) Process.new spanning := by
    have hfirst : (readPoll "a".toUTF8.data.toList).filled Process.new = some (false, [97]) := by
      decide +kernel
    have hsecond : (Process.new.poll (fun _ => none) 3 (readPoll "a".toUTF8.data.toList)).map
        (fun r => (r.1, (readPoll "b\n\nc".toUTF8.data.toList).filled r.2)) =
        some (false, some (false, [97, 98, 10, 10, 99])) := by decide +kernel
    obtain ⟨⟨ready, p₁⟩, hpoll, hp₁⟩ := Option.map_eq_some_iff.mp hsecond
    obtain ⟨rfl, hfilled⟩ := Prod.mk.inj hp₁
    refine ⟨whole_of_filled hfirst (oneLine_iff_scan.mpr (by decide)), fun p' hret => ?_⟩
    obtain ⟨_, rfl⟩ := hret.unique (returns_of_poll hpoll)
    exact ⟨whole_of_filled hfilled (oneLine_iff_scan.mpr (by decide)), fun _ _ => trivial⟩
  exact ⟨hcalm,
    (lines_whole_iff (fun _ => none) spanning hends).mpr hcalm spanning List.prefix_rfl⟩

/-- 一回の `poll` に二行が届く。 -/
def twoLines : PollInput := readPoll "a\nb\n".toUTF8.data.toList

/-- `try_process` は二つ目の行を渡し続け、`poll` は返らない。 -/
theorem twoLines_never_returns :
    (∀ fuel, Process.new.poll (fun _ => none) fuel twoLines = none) ∧
    ¬ Handed (fun _ => none) Process.new [twoLines] := by
  have hnone : ∀ fuel, Process.new.poll (fun _ => none) fuel twoLines = none := by
    intro fuel
    have hfilled : twoLines.filled Process.new = some (false, [97, 10, 98, 10]) := by decide +kernel
    obtain ⟨lb, failed, read, hread, _, hderef⟩ :=
      readLoop_spec (readPoll_ends _).1 (tracks_new.buffer)
    obtain ⟨rfl, heq⟩ := filled_eq hfilled hread
    refine poll_diverges rfl hread hderef ?_
    rw [heq, oneLine_iff_scan]
    decide
  refine ⟨hnone, ?_⟩
  rintro ⟨p, ⟨n, hn⟩, _⟩
  have hrun := hn n (Nat.le_refl n)
  rw [Process.polls, hnone] at hrun
  cases hrun

end FabAccess
