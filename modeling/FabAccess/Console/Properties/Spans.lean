import FabAccess.Console.Spans
import FabAccess.Infra.Trace

/-!
# 入っている span の数

* `Tagged` — `SpanStack` の `duplicate` は、先に入った同じ span があるかどうかである
* `Span.next_counted` — 一歩は `Counted` を保つ
* `current_polls_exact` — どの割り込みでも、出入りの途中の thread が無ければ、`current_polls` は入っている数である
-/

namespace FabAccess.Console

open Infra Infra.System

/-! ## `SpanStack` -/

/-- 印は、先に入った同じ span があるかどうかである。 -/
def Tagged (stack : SpanStack) : Prop :=
  Infra.Orderly (fun pre ctx => ctx.duplicate = pre.any fun ctx' => ctx'.id == ctx.id) stack

variable {stack : SpanStack}

theorem Tagged.push (h : Tagged stack) (id : Nat) : Tagged (stack.push id).1 :=
  orderly_append_singleton h rfl

/-- 入っている span を出ると、最後に入ったものが除かれる。 -/
theorem pop_split {id : Nat} (h : id ∈ stack.map ContextId.id) :
    ∃ pre ctx post, stack = pre ++ ctx :: post ∧ ctx.id = id ∧ (∀ ctx' ∈ post, ctx'.id ≠ id) ∧
      (stack.pop id).1 = pre ++ post := by
  obtain ⟨ctx₀, hmem, hid⟩ := List.mem_map.mp h
  obtain ⟨ctx, post, pre, hpost, hctx, hsplit, herase⟩ := List.exists_of_eraseP
    (p := fun ctx => ctx.id == id) (List.mem_reverse.mpr hmem) (beq_iff_eq.mpr hid)
  refine ⟨pre.reverse, ctx, post.reverse, ?_, beq_iff_eq.mp hctx, fun ctx' hmem' => ?_, ?_⟩
  · have hrev := congrArg List.reverse hsplit
    simpa using hrev
  · simpa using hpost ctx' (List.mem_reverse.mp hmem')
  · unfold SpanStack.pop
    have hfind : (stack.reverse.find? fun ctx => ctx.id == id) = some ctx := by
      rw [hsplit, List.find?_append, List.find?_eq_none.mpr hpost]
      simp [hctx]
    rw [hfind]
    show (stack.reverse.eraseP fun ctx => ctx.id == id).reverse = _
    rw [herase, List.reverse_append]

/-- 入っていない span から出ても、何も変わらない。 -/
theorem pop_of_not_mem {id : Nat} (h : id ∉ stack.map ContextId.id) : (stack.pop id).1 = stack := by
  unfold SpanStack.pop
  split
  · next ctx hfind =>
    have hmem := List.mem_reverse.mp (List.mem_of_find?_eq_some hfind)
    have hid := List.find?_some hfind
    exact absurd (List.mem_map.mpr ⟨ctx, hmem, beq_iff_eq.mp hid⟩) h
  · rfl

/-- ほかの span の印は、最後に入ったものが除かれても変わらない。 -/
theorem Tagged.pop (h : Tagged stack) (id : Nat) : Tagged (stack.pop id).1 := by
  by_cases hmem : id ∈ stack.map ContextId.id
  · obtain ⟨pre, ctx, post, rfl, rfl, hpost, hpop⟩ := pop_split hmem
    rw [hpop]
    intro pre' ctx' post' heq
    -- `ctx'` が除かれたものの後ろにあるか、前にあるか
    have hafter : ∀ as, post = as ++ ctx' :: post' →
        ctx'.duplicate = (pre ++ as).any fun ctx => ctx.id == ctx'.id := by
      rintro as rfl
      have hne : (ctx.id == ctx'.id) = false := beq_false_of_ne (hpost ctx' (by simp)).symm
      rw [h (pre ++ ctx :: as) ctx' post' (by simp)]
      simp only [List.any_append, List.any_cons, hne, Bool.false_or]
    rcases List.append_eq_append_iff.mp heq with ⟨as, rfl, hrest⟩ | ⟨bs, rfl, hrest⟩
    · exact hafter as hrest
    · cases bs with
      | nil =>
        have hrest' := hafter [] hrest.symm
        simpa using hrest'
      | cons b bs =>
        rw [List.cons_append, List.cons.injEq] at hrest
        obtain ⟨rfl, rfl⟩ := hrest
        exact h pre' ctx' (bs ++ ctx :: post) (by simp)
  · rw [pop_of_not_mem hmem]
    exact h

/-- `iter` は、入っている span をちょうど一度ずつ渡す。 -/
theorem Tagged.iter (h : Tagged stack) :
    stack.iter.Nodup ∧ ∀ id, id ∈ stack.iter ↔ id ∈ stack.map ContextId.id := by
  induction stack using List.reverseRecOn with
  | nil => exact ⟨List.nodup_nil, fun id => Iff.rfl⟩
  | append_singleton stack ctx ih =>
    obtain ⟨hnodup, hmem⟩ := ih fun pre ctx' post heq =>
      h pre ctx' (post ++ [ctx]) (by rw [heq, List.append_assoc]; rfl)
    have hdup : ctx.duplicate = true ↔ ctx.id ∈ stack.map ContextId.id := by
      rw [h stack ctx [] rfl]
      simp
    have hiter : SpanStack.iter (stack ++ [ctx]) =
        SpanStack.iter stack ++ if ctx.duplicate then [] else [ctx.id] := by
      unfold SpanStack.iter
      rw [List.filterMap_append]
      cases hctx : ctx.duplicate <;> simp [hctx]
    rw [hiter, List.map_append, List.map_singleton]
    split
    · next hctx =>
      rw [List.append_nil]
      refine ⟨hnodup, fun id => ?_⟩
      rw [hmem, List.mem_append, List.mem_singleton]
      constructor
      · exact Or.inl
      · rintro (hid | rfl)
        · exact hid
        · exact hdup.mp hctx
    · next hctx =>
      refine ⟨?_, fun id => by rw [List.mem_append, hmem, List.mem_append]⟩
      rw [List.nodup_append]
      refine ⟨hnodup, by simp, fun a ha b hb => ?_⟩
      rw [List.mem_singleton.mp hb]
      rintro rfl
      exact hctx (hdup.mpr ((hmem _).mp ha))

/-! ## 数える -/

variable (spans : Nat → Option Span)

/-- 統計があれば、その span。 -/
def polledOnly (id : Nat) : List Nat :=
  match spans id with
  | some span => if span.kind.polled then [id] else []
  | none => []

/-- `id` に入る間、poll に数えられる span。 -/
def polledBy (id : Nat) : List Nat :=
  match spans id with
  | none => []
  | some span =>
    if span.kind.updated then
      polledOnly spans id ++
        match span.parent with
        | some parent => polledOnly spans parent
        | none => []
    else []

/-- thread が入っていることで poll に数えられる span。 -/
def polledIn (stack : SpanStack) : List Nat := stack.flatMap fun ctx => polledBy spans ctx.id

/-- 更新されるのは、poll に数えられる span である。 -/
theorem update_eq (op : Nat → SpanOp) (id : Nat) :
    update spans op id = (polledOnly spans id).map op := by
  unfold update polledOnly
  cases spans id with
  | none => rfl
  | some span =>
    dsimp only
    split <;> rfl

/-- 出入りの歩は、poll に数えられる span の一つずつと、最後の積み降ろしである。 -/
theorem updateSpan_eq (op : Nat → SpanOp) (last : SpanOp) (id : Nat) :
    updateSpan spans op last id = (polledBy spans id).map op ++ [last] ∨
      updateSpan spans op last id = [] := by
  unfold updateSpan polledBy
  cases spans id with
  | none => exact Or.inr rfl
  | some span =>
    dsimp only
    split
    · refine Or.inl ?_
      rw [List.map_append, update_eq]
      cases span.parent with
      | none => rfl
      | some parent =>
        dsimp only
        rw [update_eq]
    · exact Or.inr rfl

/-- `s` についての、歩がまだ済んでいないことの重み。 -/
def SpanOp.weight (s : Nat) : SpanOp → ℤ
  | .fetchAdd id _ => -if id = s then 1 else 0
  | .fetchSub id _ => if id = s then 1 else 0
  | .push id => (polledBy spans id).count s
  | .pop id => -(polledBy spans id).count s
  | .begun _ _ | .ended _ _ => 0

def SpanThread.weight (s : Nat) (thread : SpanThread) : ℤ :=
  (polledIn spans thread.stack).count s + total (SpanOp.weight spans s) thread.todo

/-- `SpanStack` を変える歩である。 -/
def SpanOp.stacks : SpanOp → Bool
  | .push _ | .pop _ => true
  | _ => false

/-- 一つの thread について保たれること。 -/
structure Neat (thread : SpanThread) : Prop where
  tagged : Tagged thread.stack
  one : thread.todo.countP SpanOp.stacks ≤ 1
  inside : ∀ id, .pop id ∈ thread.todo → id ∈ thread.stack.map ContextId.id

structure Counted {H : Type} (stats : Nat → PollStats H) (threads : List SpanThread) : Prop where
  polls : ∀ s, (stats s).currentPolls = BitVec.ofInt 64 (total (SpanThread.weight spans s) threads)
  neat : ∀ thread ∈ threads, Neat thread

variable {H : Type} (recordPollDuration : H → Nat → H) {stats : Nat → PollStats H}

/-- poll の終わりの記録は、`current_polls` に触らない。 -/
theorem ended_currentPolls (stats : PollStats H) (now : Nat) :
    (stats.ended recordPollDuration now).currentPolls = stats.currentPolls := by
  unfold PollStats.ended
  split
  · rfl
  · dsimp only
    split <;> rfl

/-- 一歩で `current_polls` が変わる量は、済んだことの重みである。 -/
theorem exec_counted {op : SpanOp}
    (hpop : ∀ id, op = .pop id → id ∈ stack.map ContextId.id) (s : Nat) :
    ((op.exec recordPollDuration stats stack).1 s).currentPolls = (stats s).currentPolls +
      BitVec.ofInt 64 ((polledIn spans (op.exec recordPollDuration stats stack).2.1).count s -
        (polledIn spans stack).count s +
        total (SpanOp.weight spans s) (op.exec recordPollDuration stats stack).2.2 -
        op.weight spans s) := by
  have hzero : ∀ id : Nat, ∀ f : PollStats H → PollStats H,
      (∀ stats, (f stats).currentPolls = stats.currentPolls) →
      (Function.update stats id (f (stats id)) s).currentPolls = (stats s).currentPolls := by
    intro id f hf
    by_cases hs : s = id
    · subst hs
      rw [Function.update_self, hf]
    · rw [Function.update_of_ne hs]
  cases op with
  | fetchAdd id now =>
    have hmore : total (SpanOp.weight spans s)
        (if (stats id).currentPolls = 0 then [SpanOp.begun id now] else []) = 0 := by
      split <;> rfl
    simp only [SpanOp.exec, hmore, SpanOp.weight]
    by_cases hs : id = s
    · subst hs
      simp [PollStats.fetchAdd]
    · rw [Function.update_of_ne (Ne.symm hs)]
      simp [hs]
  | begun id now =>
    simp only [SpanOp.exec, SpanOp.weight, total_nil]
    rw [hzero id (fun stats => stats.begun now) fun _ => rfl]
    simp
  | fetchSub id now =>
    have hmore : total (SpanOp.weight spans s)
        (if 1 < (stats id).currentPolls then [] else [SpanOp.ended id now]) = 0 := by
      split <;> rfl
    simp only [SpanOp.exec, hmore, SpanOp.weight]
    by_cases hs : id = s
    · subst hs
      simp [PollStats.fetchSub, BitVec.sub_eq_add_neg]
    · rw [Function.update_of_ne (Ne.symm hs)]
      simp [hs]
  | ended id now =>
    simp only [SpanOp.exec, SpanOp.weight, total_nil]
    rw [hzero id (fun stats => stats.ended recordPollDuration now)
      fun stats => ended_currentPolls recordPollDuration stats now]
    simp
  | push id =>
    simp only [SpanOp.exec, SpanOp.weight, total_nil, SpanStack.push, polledIn, List.flatMap_append,
      List.count_append]
    simp
  | pop id =>
    obtain ⟨pre, ctx, post, rfl, rfl, _, hrest⟩ := pop_split (hpop id rfl)
    simp only [SpanOp.exec, SpanOp.weight, total_nil, hrest, polledIn, List.flatMap_append,
      List.flatMap_cons, List.count_append]
    have hsum : ∀ a b m : Nat, ((a + b : Nat) : ℤ) - ((a + (m + b) : Nat) : ℤ) + 0 - -(m : ℤ) = 0 := by
      omega
    rw [hsum]
    simp

/-! ## 一歩 -/

/-- 入る歩の残りの重みは、数えられる回数の符号を変えたものである。 -/
theorem total_fetchAdd (l : List Nat) (now s : Nat) :
    total (SpanOp.weight spans s) (l.map (.fetchAdd · now)) = -(l.count s : ℤ) := by
  induction l with
  | nil => rfl
  | cons id l ih =>
    rw [List.map_cons, total_cons, ih, List.count_cons]
    simp only [SpanOp.weight, beq_iff_eq]
    split <;> omega

/-- 出る歩の残りの重みは、数えられる回数である。 -/
theorem total_fetchSub (l : List Nat) (now s : Nat) :
    total (SpanOp.weight spans s) (l.map (.fetchSub · now)) = l.count s := by
  induction l with
  | nil => rfl
  | cons id l ih =>
    rw [List.map_cons, total_cons, ih, List.count_cons]
    simp only [SpanOp.weight, beq_iff_eq]
    split <;> omega

/-- 入り始めと出始めには、まだ何も変わらない。 -/
theorem onEnter_weight (id now s : Nat) :
    total (SpanOp.weight spans s) (onEnter spans id now) = 0 := by
  unfold onEnter
  rcases updateSpan_eq spans (SpanOp.fetchAdd · now) (.push id) id with heq | heq
  · rw [heq, total_append, total_fetchAdd, total_cons, total_nil]
    simp only [SpanOp.weight]
    omega
  · rw [heq]
    rfl

/-- 出始めには、まだ何も変わらない。 -/
theorem onExit_weight (id now s : Nat) :
    total (SpanOp.weight spans s) (onExit spans id now) = 0 := by
  unfold onExit
  rcases updateSpan_eq spans (SpanOp.fetchSub · now) (.pop id) id with heq | heq
  · rw [heq, total_append, total_fetchSub, total_cons, total_nil]
    simp only [SpanOp.weight]
    omega
  · rw [heq]
    rfl

/-- 出入りの歩のうち、`SpanStack` を変えるのは最後の一つだけである。 -/
theorem updateSpan_stacks (op : Nat → SpanOp) (hop : ∀ id, (op id).stacks = false) {last : SpanOp}
    (hlast : last.stacks = true) (id : Nat) :
    (updateSpan spans op last id).countP SpanOp.stacks ≤ 1 ∧
      ∀ o ∈ updateSpan spans op last id, o.stacks = true → o = last := by
  have hops : ∀ o ∈ (polledBy spans id).map op, o.stacks = false := by
    intro o ho
    obtain ⟨id', _, rfl⟩ := List.mem_map.mp ho
    exact hop id'
  rcases updateSpan_eq spans op last id with heq | heq
  · rw [heq]
    refine ⟨?_, fun o ho hstacks => ?_⟩
    · have hnone : ((polledBy spans id).map op).countP SpanOp.stacks = 0 :=
        List.countP_eq_zero.mpr fun o ho => by simp [hops o ho]
      rw [List.countP_append, hnone, List.countP_singleton, hlast]
      simp
    · rcases List.mem_append.mp ho with ho | ho
      · rw [hops o ho] at hstacks
        cases hstacks
      · exact List.mem_singleton.mp ho
  · rw [heq]
    exact ⟨Nat.zero_le _, fun o ho => by cases ho⟩

/-- 歩の結果として増える歩は、`SpanStack` を変えない。 -/
theorem exec_more (op : SpanOp) : ∀ o ∈ (op.exec recordPollDuration stats stack).2.2,
    o.stacks = false := by
  intro o ho
  cases op with
  | fetchAdd id now =>
    simp only [SpanOp.exec] at ho
    split at ho
    · rw [List.mem_singleton.mp ho]
      rfl
    · cases ho
  | fetchSub id now =>
    simp only [SpanOp.exec] at ho
    split at ho
    · cases ho
    · rw [List.mem_singleton.mp ho]
      rfl
  | begun id now => cases ho
  | ended id now => cases ho
  | push id => cases ho
  | pop id => cases ho

/-- stack の重なりの印は、出入りの歩で正しいままである。 -/
theorem exec_tagged (op : SpanOp) (h : Tagged stack) :
    Tagged (op.exec recordPollDuration stats stack).2.1 := by
  cases op with
  | push id => exact h.push id
  | pop id => exact h.pop id
  | _ => exact h

/-- 積み降ろしでない歩は、stack に触らない。 -/
theorem exec_stack {op : SpanOp} (h : op.stacks = false) :
    (op.exec recordPollDuration stats stack).2.1 = stack := by
  cases op with
  | push id => cases h
  | pop id => cases h
  | _ => rfl

/-- 進行中の歩を一つ進めても、thread は整っている。 -/
theorem Neat.exec {op : SpanOp} {todo : List SpanOp} (h : Neat ⟨stack, op :: todo⟩) :
    Neat ⟨(op.exec recordPollDuration stats stack).2.1,
      (op.exec recordPollDuration stats stack).2.2 ++ todo⟩ := by
  have hone := h.one
  rw [List.countP_cons] at hone
  have hmore : (op.exec recordPollDuration stats stack).2.2.countP SpanOp.stacks = 0 :=
    List.countP_eq_zero.mpr fun o ho => by simp [exec_more recordPollDuration op o ho]
  refine ⟨exec_tagged recordPollDuration op h.tagged, ?_, fun id hmem => ?_⟩
  · rw [List.countP_append, hmore]
    omega
  · rcases List.mem_append.mp hmem with hmem | hmem
    · cases exec_more recordPollDuration op _ hmem
    · have hop : op.stacks = false := by
        by_contra hstacks
        have hpos : 0 < todo.countP SpanOp.stacks := List.countP_pos_iff.mpr ⟨_, hmem, rfl⟩
        rw [if_pos (by simpa using hstacks)] at hone
        omega
      dsimp only
      rw [exec_stack recordPollDuration hop]
      exact h.inside id (List.mem_cons_of_mem _ hmem)

/-- 一つの thread の一歩。 -/
theorem SpanThread.next_neat {stats' : Nat → PollStats H} {thread thread' : SpanThread}
    {pick : SpanPick}
    (h : SpanThread.next spans recordPollDuration stats thread pick = some (stats', thread'))
    (hneat : Neat thread) :
    Neat thread' ∧ ∀ s, (stats' s).currentPolls = (stats s).currentPolls +
      BitVec.ofInt 64 (thread'.weight spans s - thread.weight spans s) := by
  obtain ⟨stack, todo⟩ := thread
  unfold SpanThread.next at h
  split at h
  · next id now htodo =>
    cases h
    cases htodo
    obtain ⟨hone, hlast⟩ := updateSpan_stacks spans (SpanOp.fetchAdd · now)
      (fun _ => rfl) (show (SpanOp.push id).stacks = true from rfl) id
    refine ⟨⟨hneat.tagged, hone, fun id' hmem => ?_⟩, fun s => ?_⟩
    · cases hlast _ hmem rfl
    · simp only [SpanThread.weight, onEnter_weight, total_nil]
      simp
  · next id now htodo =>
    cases htodo
    split at h
    · next hinside =>
      cases h
      obtain ⟨hone, hlast⟩ := updateSpan_stacks spans (SpanOp.fetchSub · now)
        (fun _ => rfl) (show (SpanOp.pop id).stacks = true from rfl) id
      refine ⟨⟨hneat.tagged, hone, fun id' hmem => ?_⟩, fun s => ?_⟩
      · cases hlast _ hmem rfl
        simpa using hinside
      · simp only [SpanThread.weight, onExit_weight, total_nil]
        simp
    · cases h
  · next op todo' htodo =>
    cases htodo
    have hexec : ((op.exec recordPollDuration stats stack).1,
        SpanThread.mk (op.exec recordPollDuration stats stack).2.1
          ((op.exec recordPollDuration stats stack).2.2 ++ todo')) = (stats', thread') :=
      Option.some.inj h
    obtain ⟨rfl, rfl⟩ := Prod.mk.inj hexec
    have hpop : ∀ id, op = .pop id → id ∈ stack.map ContextId.id := by
      rintro id rfl
      exact hneat.inside id (List.mem_cons_self ..)
    refine ⟨hneat.exec recordPollDuration, fun s => ?_⟩
    refine (exec_counted spans recordPollDuration hpop s).trans ?_
    congr 2
    simp only [SpanThread.weight, total_append, total_cons]
    omega
  · cases h

/-! ## 実行の全体 -/

/-- 不変条件は、thread の並び順によらない。 -/
theorem counted_symm : Symm (Counted (H := H) spans) := by
  intro stats threads threads' hperm h
  refine ⟨fun s => ?_, fun thread hmem => h.neat thread (hperm.mem_iff.mpr hmem)⟩
  rw [h.polls s, total_perm _ hperm]

/-- 一歩は、`current_polls` と、thread の stack との釣り合いを保つ。 -/
theorem next_counted {stats' : Nat → PollStats H} {thread thread' : SpanThread} {pick : SpanPick}
    {rest : List SpanThread}
    (hnext : (spanThreads spans recordPollDuration).next stats thread pick = some (stats', thread'))
    (h : Counted spans stats (thread :: rest)) : Counted spans stats' (thread' :: rest) := by
  obtain ⟨hneat, hpolls⟩ := SpanThread.next_neat spans recordPollDuration hnext
    (h.neat thread (List.mem_cons_self ..))
  refine ⟨fun s => ?_, fun t hmem => ?_⟩
  · rw [hpolls s, h.polls s, ← BitVec.ofInt_add, total_cons, total_cons]
    congr 1
    omega
  · rcases List.mem_cons.mp hmem with rfl | hmem
    · exact hneat
    · exact h.neat t (List.mem_cons_of_mem _ hmem)

/-- どの割り込みでも、その釣り合いは成り立つ。 -/
theorem counted_of_run {histogram : H} {c : Config (Nat → PollStats H) SpanThread}
    {ms : List (Move Unit SpanPick)}
    (hrun : (spanThreads spans recordPollDuration).run (spanStart histogram) ms = some c) :
    Counted spans c.shared c.threads := by
  have hall : (spanThreads spans recordPollDuration).Obeys (fun _ _ => True) (spanStart histogram)
      ms := obeys_of_forall (fun _ _ _ => trivial) _
  refine run_invariant_of_obeys (counted_symm spans) ?_
    (fun _ _ _ _ _ _ _ _ _ hnext _ h => next_counted spans recordPollDuration hnext h) hrun hall
    ⟨fun s => rfl, fun t ht => by cases ht⟩
  intro stats threads _ stats' new hspawn _ h
  cases hspawn
  refine ⟨fun s => ?_, fun t hmem => ?_⟩
  · rw [h.polls s, total_append]
    simp [total, SpanThread.weight, polledIn]
  · rcases List.mem_cons.mp hmem with rfl | hmem
    · exact ⟨orderly_nil, Nat.zero_le _, fun id hid => by cases hid⟩
    · exact h.neat t hmem

/--
**どの割り込みでも、出入りの途中の thread が無ければ、span の `current_polls` は、その span とその子に
入っている数の合計である。**

同じ thread が同じ span に重ねて入っても、入った順に出なくても、そうである。`SpanStack::iter` は、
thread が入っている span を、重ねて入っていても一度だけ渡す。
-/
theorem current_polls_exact (histogram : H) (ms : List (Move Unit SpanPick))
    (c : Config (Nat → PollStats H) SpanThread)
    (hrun : (spanThreads spans recordPollDuration).run (spanStart histogram) ms = some c) :
    ((∀ thread ∈ c.threads, thread.todo = []) → ∀ id, (c.shared id).currentPolls =
      BitVec.ofNat 64 (total (fun thread => (polledIn spans thread.stack).count id) c.threads)) ∧
    ∀ thread ∈ c.threads, (SpanStack.iter thread.stack).Nodup ∧
      ∀ id, id ∈ SpanStack.iter thread.stack ↔ id ∈ thread.stack.map ContextId.id := by
  have hcounted := counted_of_run spans recordPollDuration hrun
  refine ⟨fun hidle id => ?_, fun thread hmem => (hcounted.neat thread hmem).tagged.iter⟩
  rw [hcounted.polls id, ← BitVec.ofInt_natCast]
  congr 1
  clear hrun hcounted
  generalize c.threads = threads at hidle
  induction threads with
  | nil => rfl
  | cons thread threads ih =>
    have hthread := hidle thread (List.mem_cons_self ..)
    rw [total_cons, total_cons, ih fun t ht => hidle t (List.mem_cons_of_mem _ ht)]
    simp [SpanThread.weight, hthread]

/-- 一つの task と、その中の async op。 -/
def taskWithOp : Nat → Option Span
  | 0 => some ⟨.task, none⟩
  | 1 => some ⟨.asyncOp, some 0⟩
  | _ => none

/-- 二つの thread が出入りする。一つは同じ task に重ねて入り、先に入ったほうから出る。 -/
def nestedEnter : List (Move Unit SpanPick) :=
  [.spawn (), .spawn (), .exec 0 (.enter 0 5), .exec 0 .go, .exec 1 (.enter 1 6), .exec 1 .go,
    .exec 0 .go, .exec 1 .go, .exec 0 .go, .exec 1 .go, .exec 1 .go, .exec 0 (.enter 0 8),
    .exec 0 .go, .exec 0 .go, .exec 0 (.exit 0 9), .exec 0 .go, .exec 0 .go]

theorem current_polls_exact_nestedEnter :
    ∃ c, (spanThreads taskWithOp fun (n : Nat) d => n + d).run (spanStart 0) nestedEnter = some c ∧
      (∀ thread ∈ c.threads, thread.todo = []) ∧ (c.shared 0).currentPolls = 2 ∧
      (∀ id, (c.shared id).currentPolls = BitVec.ofNat 64
        (total (fun thread => (polledIn taskWithOp thread.stack).count id) c.threads)) ∧
      ∀ thread ∈ c.threads, (SpanStack.iter thread.stack).Nodup := by
  have h : ((spanThreads taskWithOp fun (n : Nat) d => n + d).run (spanStart 0) nestedEnter).map
      (fun c => (c.threads.map SpanThread.todo, (c.shared 0).currentPolls)) =
      some ([[], []], 2) := by decide
  obtain ⟨c, hrun, hc⟩ := Option.map_eq_some_iff.mp h
  obtain ⟨htodo, hpolls⟩ := Prod.mk.inj hc
  have hidle : ∀ thread ∈ c.threads, thread.todo = [] := by
    intro thread hmem
    have hin := List.mem_map_of_mem (f := SpanThread.todo) hmem
    rw [htodo] at hin
    simpa using hin
  obtain ⟨hexact, hiter⟩ := current_polls_exact taskWithOp _ 0 nestedEnter c hrun
  exact ⟨c, hrun, hidle, hpolls, hexact hidle, fun thread hmem => (hiter thread hmem).1⟩

end FabAccess.Console
