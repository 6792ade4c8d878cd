import FabAccess.Infra.Interleave
import FabAccess.Lightproc.State

/-!
# awaiter の入れ替え

`runtime/lightproc/src/proc_data.rs` の `ProcData::swap_awaiter` の埋め込み。

```
acquire : fetch_or(LOCKED [| AWAITER])   ── 元の word が locked なら抜ける、さもなくば繰り返す
replace : awaiter.replace(new)
release : fetch_and(!LOCKED [& !AWAITER])
```

waker の型 `W` は任意で、`will_wake` は等しさとする。
-/

namespace FabAccess.Lightproc

open Infra StateFlags

/-- 取りに行くときの mask。awaiter を置くときは AWAITER も立てる。 -/
def lockMask {W : Type} (new : Option W) : StateFlags :=
  if new.isNone then LOCKED else LOCKED ||| AWAITER

/-- 放すときの mask。awaiter を消したときは AWAITER も下ろす。 -/
def unlockMask {W : Type} (new : Option W) : StateFlags :=
  if new.isNone then ~~~LOCKED &&& ~~~AWAITER else ~~~LOCKED

section

variable {W : Type} (new : Option W)

/-- lock を取る `fetch_or` が立てるのは LOCKED と、置くときの AWAITER だけである。 -/
theorem lockMask_eq : lockMask new = { locked := true, awaiter := new.isSome } := by
  cases new <;> rfl

theorem unlockMask_eq : unlockMask new =
    { scheduled := true, running := true, completed := true, closed := true, handle := true,
      awaiter := new.isSome, locked := false } := by
  cases new <;> rfl

end

/-- `swap_awaiter` が触る二つの欄。 -/
structure AwaiterCell (W : Type) where
  word : State
  awaiter : Option W
  deriving DecidableEq, Repr

/-- `swap_awaiter` の途中の位置。 -/
inductive Swap (W : Type) where
  | acquire (new : Option W)
  | replace (new : Option W)
  | release (new old : Option W)
  | returned (old : Option W)
  deriving DecidableEq, Repr

/-- `swap_awaiter` の一歩。loop は元の word が **locked であるとき** に抜ける。 -/
def swapNext {W : Type} (c : AwaiterCell W) : Swap W → Option (AwaiterCell W × Swap W)
  | .acquire new =>
    some ({ c with word := c.word.fetchOr (lockMask new) },
      if c.word.isLocked then .replace new else .acquire new)
  | .replace new => some ({ c with awaiter := new }, .release new c.awaiter)
  | .release new old =>
    some ({ c with word := c.word.fetchAnd (unlockMask new) }, .returned old)
  | .returned _ => none

/-- いくつもの thread が同じ proc の `swap_awaiter` を進める系。始めるときに `new` を選ぶ。 -/
def swaps (W : Type) : System (AwaiterCell W) (Swap W) (Option W) Unit where
  spawn c new := some (c, [.acquire new])
  next c t _ := swapNext c t

end FabAccess.Lightproc
