import FabAccess.Authentication.Properties.CardLogin
import FabAccess.Infra.Cut

/-!
# card の token の保存

`bind` と `unbind` は token が UTF-8 ならそのまま、そうでなければ hex にして保存するが、
`getTokenList` はいつも hex として読む。hex の text はそれ自身 UTF-8 の token でもある。

* `getTokenList_bound_iff` — 結び付けた token が読めるのは、UTF-8 でないとき
* `tokenText_inj_iff` — 保存された文字列が token を決めるのは、hex の text でない UTF-8 のとき
* `tokens_never_survive` — だから、どの token も両方は満たさない
-/

namespace FabAccess

open FabAccess.Authentication FabAccess.Infra

/-- hex の crate の文書にある振る舞い。二文字が一 byte になる。 -/
structure Codec.Hex (x : Codec) : Prop where
  decode_encode : ∀ b, x.hexDecode (x.hexEncode b) = some b
  size_of_decode : ∀ s b, x.hexDecode s = some b → s.utf8ByteSize = 2 * b.size

variable {x : Codec} {uid : String} {user bound : User} {t t' key : ByteArray}

/-! ## 保存された文字列 -/

/-- token が UTF-8 である。 -/
def IsUtf8 (t : ByteArray) : Prop := ∃ s : String, t = s.toUTF8

/-- token が、UTF-8 でない byte 列の hex の text である。 -/
def IsHexText (x : Codec) (t : ByteArray) : Prop := ∃ b, ¬ IsUtf8 b ∧ t = (x.hexEncode b).toUTF8

/-- UTF-8 の token は、そのまま書かれる。 -/
theorem tokenText_toUTF8 (s : String) : tokenText x s.toUTF8 = s := by
  simp only [tokenText, fromUTF8?_toUTF8]

/-- UTF-8 でない token は、十六進で書かれる。 -/
theorem tokenText_of_not_utf8 (h : ¬ IsUtf8 t) : tokenText x t = x.hexEncode t := by
  unfold tokenText
  split
  · next s hs => exact absurd ⟨s, eq_toUTF8_of_fromUTF8? hs⟩ h
  · rfl

/-- UTF-8 の token は、hex として自分自身に読めることがない。長さが倍になるからである。 -/
theorem hexDecode_toUTF8_ne (hx : x.Hex) {s : String} (hne : s.toUTF8 ≠ ByteArray.empty) :
    x.hexDecode s ≠ some s.toUTF8 := by
  intro h
  have hsize := hx.size_of_decode s _ h
  have hlen : s.utf8ByteSize = s.toUTF8.size := rfl
  have hzero : s.toUTF8.size = 0 := by omega
  exact hne (ByteArray.size_eq_zero_iff.mp hzero)

/-! ## 結び付けた record -/

/-- token の無い record には、いつも新しい組が書かれる。 -/
theorem bindCard_unbound (h : user.userdata.kv.lookup "cardtoken" = none) :
    bindCard x uid t key (some user) =
      .put (user.insertCard (tokenText x t) (x.hexEncode key)) := by
  simp only [bindCard, h]

/-- 結びつけた token は、`cardtoken` に入る。 -/
theorem insertCard_token (user : User) (token cardKey : String) :
    (user.insertCard token cardKey).userdata.kv.lookup "cardtoken" = some token := by
  simp only [User.insertCard]
  rw [Finmap.lookup_insert_of_ne _ (by decide), Finmap.lookup_insert]

/-- 結びつけた鍵は、`cardkey` に入る。 -/
theorem insertCard_key (user : User) (token cardKey : String) :
    (user.insertCard token cardKey).userdata.kv.lookup "cardkey" = some cardKey := by
  simp only [User.insertCard]
  rw [Finmap.lookup_insert]

/-- 外した後に `cardtoken` は無い。 -/
theorem removeCard_token (user : User) : user.removeCard.userdata.kv.lookup "cardtoken" = none := by
  simp only [User.removeCard]
  rw [Finmap.lookup_erase_ne (by decide), Finmap.lookup_erase]

/-- 外した後に `cardkey` は無い。 -/
theorem removeCard_key (user : User) : user.removeCard.userdata.kv.lookup "cardkey" = none := by
  simp only [User.removeCard]
  rw [Finmap.lookup_erase]

/-- 結びつけた後の一覧は、書かれた文字列を十六進として読んだものである。 -/
theorem getTokenList_insertCard {token cardKey : String} :
    getTokenList x uid (some (user.insertCard token cardKey)) =
      if ((x.hexDecode token).getD ByteArray.empty).isEmpty then .ok []
      else .ok [(x.hexDecode token).getD ByteArray.empty] := by
  simp only [getTokenList, insertCard_token, Option.bind_some]

variable (x uid) in
/-- `unbind` が token と key を消す。 -/
def Unbinds (user : User) (t' : ByteArray) : Prop :=
  ∃ user', unbindCard x uid t' (some user) = .put user' ∧
    user'.userdata.kv.lookup "cardtoken" = none ∧ user'.userdata.kv.lookup "cardkey" = none

/-- 外せるのは、書かれた文字列と同じ文字列になる token である。 -/
theorem unbinds_insertCard_iff {token cardKey : String} :
    Unbinds x uid (user.insertCard token cardKey) t' ↔ tokenText x t' = token := by
  simp only [Unbinds, unbindCard, insertCard_token]
  by_cases heq : token = tokenText x t'
  · rw [if_pos (congrArg some heq)]
    exact ⟨fun _ => heq.symm, fun _ => ⟨_, rfl, removeCard_token _, removeCard_key _⟩⟩
  · rw [if_neg (fun hsome => heq (Option.some.inj hsome))]
    constructor
    · rintro ⟨user', hput, hnone, _⟩
      cases hput
      rw [insertCard_token] at hnone
      cases hnone
    · intro hsame
      exact absurd hsame.symm heq

/-- 同じ token の繰り返しとして扱われると、何も書かれない。 -/
theorem bindCard_insertCard_iff {token cardKey : String} :
    bindCard x uid t' key (some (user.insertCard token cardKey)) = .done .ok ↔
      tokenText x t' = token := by
  simp only [bindCard, insertCard_token, insertCard_key]
  by_cases heq : token = tokenText x t'
  · constructor
    · intro _
      exact heq.symm
    · intro _
      split
      · rfl
      · rfl
  · rw [if_neg (fun hboth => heq hboth.1), if_neg heq]
    constructor
    · intro hput
      cases hput
    · intro hsame
      exact absurd hsame.symm heq

/-- 結び付けた token が読めるのは、UTF-8 でないとき、そのときに限る。 -/
theorem getTokenList_bound_iff (hx : x.Hex) (ht : t ≠ ByteArray.empty) {cardKey : String} :
    getTokenList x uid (some (user.insertCard (tokenText x t) cardKey)) = .ok [t] ↔
      ¬ IsUtf8 t := by
  rw [getTokenList_insertCard]
  constructor
  · rintro hlist ⟨s, rfl⟩
    rw [tokenText_toUTF8] at hlist
    split at hlist
    · cases hlist
    · next hsome =>
      simp only [Except.ok.injEq, List.cons.injEq, and_true] at hlist
      cases hdec : x.hexDecode s with
      | none =>
        rw [hdec] at hlist
        exact ht hlist.symm
      | some b =>
        rw [hdec] at hlist
        have hb : b = s.toUTF8 := hlist
        rw [hb] at hdec
        exact hexDecode_toUTF8_ne hx ht hdec
  · intro hno
    have hne : ¬ t.isEmpty = true := by
      rw [ByteArray.isEmpty, beq_iff_eq]
      exact fun hzero => ht (ByteArray.size_eq_zero_iff.mp hzero)
    rw [tokenText_of_not_utf8 hno, hx.decode_encode, Option.getD_some, if_neg hne]

/-- 保存された文字列が token を決めるのは、hex の text でない UTF-8 のとき、そのときに限る。 -/
theorem tokenText_inj_iff :
    (∀ t', tokenText x t' = tokenText x t ↔ t' = t) ↔ IsUtf8 t ∧ ¬ IsHexText x t := by
  constructor
  · intro hinj
    have hutf8 : IsUtf8 t := by
      by_contra hno
      -- hex の text は、それ自身が UTF-8 の token である
      have hsame := (hinj (x.hexEncode t).toUTF8).mp
        (by rw [tokenText_toUTF8, tokenText_of_not_utf8 hno])
      exact hno ⟨_, hsame.symm⟩
    refine ⟨hutf8, ?_⟩
    rintro ⟨b, hb, rfl⟩
    have hsame := (hinj b).mp (by rw [tokenText_toUTF8, tokenText_of_not_utf8 hb])
    exact hb (hsame ▸ hutf8)
  · rintro ⟨⟨s, rfl⟩, hhex⟩ t'
    rw [tokenText_toUTF8]
    constructor
    · intro htext
      by_cases hutf8 : IsUtf8 t'
      · obtain ⟨s', rfl⟩ := hutf8
        rw [tokenText_toUTF8] at htext
        rw [htext]
      · rw [tokenText_of_not_utf8 hutf8] at htext
        exact absurd ⟨t', hutf8, by rw [htext]⟩ hhex
    · intro hsame
      rw [hsame, tokenText_toUTF8]

/--
**card の token は、どれも保存で壊れる。**

空でないどの token `t` についても、結び付けた後に `getTokenList` がちょうど `t` を返すのは UTF-8 で
ないときで、`unbind` と繰り返しの `bind` が `t` だけに応じるのは、hex の text でない UTF-8 のときである。
この二つは両立しない。
-/
theorem tokens_never_survive (x : Codec) (hx : x.Hex) (uid : String) (t key : ByteArray)
    (ht : t ≠ ByteArray.empty) (user bound : User)
    (hnone : user.userdata.kv.lookup "cardtoken" = none)
    (hbind : bindCard x uid t key (some user) = .put bound) :
    (getTokenList x uid (some bound) = .ok [t] ↔ ¬ IsUtf8 t) ∧
    ((∀ t', Unbinds x uid bound t' ↔ t' = t) ↔ IsUtf8 t ∧ ¬ IsHexText x t) ∧
    ((∀ t', bindCard x uid t' key (some bound) = .done .ok ↔ t' = t) ↔
      IsUtf8 t ∧ ¬ IsHexText x t) ∧
    ¬ (getTokenList x uid (some bound) = .ok [t] ∧ (∀ t', Unbinds x uid bound t' ↔ t' = t) ∧
      ∀ t', bindCard x uid t' key (some bound) = .done .ok ↔ t' = t) := by
  rw [bindCard_unbound hnone, Edit.put.injEq] at hbind
  subst hbind
  have hlist : getTokenList x uid (some (user.insertCard (tokenText x t) (x.hexEncode key))) =
      .ok [t] ↔ ¬ IsUtf8 t := getTokenList_bound_iff hx ht
  simp only [unbinds_insertCard_iff, bindCard_insertCard_iff]
  exact ⟨hlist, tokenText_inj_iff, tokenText_inj_iff,
    fun h => hlist.mp h.1 (tokenText_inj_iff.mp h.2.1).1⟩

/-! ## 実際の値での例 -/

theorem hexDigit_utf8Size {c : Char} {n : UInt8} (h : hexDigit c = some n) : c.utf8Size = 1 := by
  have hle : c.val ≤ 0x7f := by
    unfold hexDigit at h
    split at h
    · next hdigit => exact UInt32.le_trans hdigit.2 (by decide)
    · split at h
      · next hlower => exact UInt32.le_trans hlower.2 (by decide)
      · split at h
        · next hupper => exact UInt32.le_trans hupper.2 (by decide)
        · cases h
  exact if_pos hle

theorem width_of_hexBytes {l : List Char} {bs : List UInt8} (h : hexBytes l = some bs) :
    width Char.utf8Size l = 2 * bs.length := by
  induction l using hexBytes.induct generalizing bs with
  | case1 =>
    cases h
    rfl
  | case2 c => cases h
  | case3 hi lo cs ih =>
    simp only [hexBytes, Option.bind_eq_bind, Option.bind_eq_some_iff, Option.pure_def,
      Option.some.injEq] at h
    obtain ⟨high, hhi, low, hlo, rest, hrest, rfl⟩ := h
    simp only [width, hexDigit_utf8Size hhi, hexDigit_utf8Size hlo, ih hrest, List.length_cons]
    omega

/-- 一つの桁の書き方。 -/
def digitChar (n : UInt8) : Char :=
  Char.ofNat (if n < 10 then n.toNat + 0x30 else n.toNat + 0x57)

theorem hexDigit_digitChar {n : UInt8} (h : n < 16) : hexDigit (digitChar n) = some n := by
  have hall : ∀ k : Fin 16, hexDigit (digitChar (UInt8.ofNat k)) = some (UInt8.ofNat k) := by
    decide
  have hn : n = UInt8.ofNat n.toNat := (UInt8.ofNat_toNat).symm
  rw [hn]
  exact hall ⟨n.toNat, h⟩

/-- 十六進で書いた byte 列は読み戻される。 -/
theorem hexBytes_digits (bs : List UInt8) :
    hexBytes (bs.flatMap fun b => [digitChar (b / 16), digitChar (b % 16)]) = some bs := by
  induction bs with
  | nil => rfl
  | cons b bs ih =>
    have hhigh : b / 16 < 16 := by
      rw [UInt8.lt_iff_toNat_lt, UInt8.toNat_div]
      have hb := b.toNat_lt
      simp only [UInt8.reduceToNat]
      omega
    have hlow : b % 16 < 16 := UInt8.mod_lt b (by decide)
    have hsum : b / 16 * 16 + b % 16 = b := by
      rw [← UInt8.toNat_inj]
      have hb := b.toNat_lt
      simp only [UInt8.toNat_add, UInt8.toNat_mul, UInt8.toNat_div, UInt8.toNat_mod,
        UInt8.reduceToNat]
      omega
    simp only [List.flatMap_cons, List.cons_append, List.nil_append, hexBytes,
      hexDigit_digitChar hhigh, hexDigit_digitChar hlow, ih, Option.bind_eq_bind,
      Option.bind_some, Option.pure_def, hsum]

/-- 実際の hex は、文書のとおりに振る舞う。 -/
theorem cardCrates_hex (token : String) : (cardCrates token).toCodec.Hex where
  decode_encode b := by
    have hbytes := hexBytes_digits b.data.toList
    unfold digitChar at hbytes
    simp only [cardCrates, hexLower, String.toList_ofList, hbytes, Option.map_some,
      Array.toArray_toList]
  size_of_decode s b h := by
    simp only [cardCrates, Option.map_eq_some_iff] at h
    obtain ⟨bs, hbs, rfl⟩ := h
    rw [← width_toList, width_of_hexBytes hbs]
    simp [ByteArray.size]

/-- UTF-8 でない一 byte の token。読み戻せるが、その hex の text でも外せてしまう。 -/
theorem tokens_never_survive_binary :
    getTokenList (cardCrates "alice").toCodec "alice"
      (some (alice.insertCard "ff" (hexLower cardKey))) = .ok [⟨#[0xff]⟩] ∧
    ¬ ∀ t', Unbinds (cardCrates "alice").toCodec "alice"
      (alice.insertCard "ff" (hexLower cardKey)) t' ↔ t' = ⟨#[0xff]⟩ := by
  have hlist : getTokenList (cardCrates "alice").toCodec "alice"
      (some (alice.insertCard "ff" (hexLower cardKey))) = .ok [⟨#[0xff]⟩] := by decide +kernel
  obtain ⟨hread, hunbind, _⟩ := tokens_never_survive (cardCrates "alice").toCodec
    (cardCrates_hex "alice") "alice" ⟨#[0xff]⟩ cardKey (by decide) alice
    (alice.insertCard "ff" (hexLower cardKey)) (by decide) (by decide +kernel)
  exact ⟨hlist, fun hall => hread.mp hlist (hunbind.mp hall).1⟩

/-- UTF-8 の token `abcd` は、結び付けた後、二 byte の別の token として読まれる。 -/
theorem text_token_misread :
    bindCard (cardCrates "alice").toCodec "alice" "abcd".toUTF8 cardKey (some alice) =
      .put (alice.insertCard "abcd" (hexLower cardKey)) ∧
    getTokenList (cardCrates "alice").toCodec "alice"
      (some (alice.insertCard "abcd" (hexLower cardKey))) = .ok [⟨#[0xab, 0xcd]⟩] ∧
    Unbinds (cardCrates "alice").toCodec "alice" (alice.insertCard "abcd" (hexLower cardKey))
      ⟨#[0xab, 0xcd]⟩ :=
  ⟨by decide +kernel, by decide +kernel, unbinds_insertCard_iff.mpr (by decide +kernel)⟩

end FabAccess
