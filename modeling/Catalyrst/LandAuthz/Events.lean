import Catalyrst.Lib.Fallible
import Catalyrst.Lib.Numeral

/-!
# Logs of the land contracts

The contracts of parcels and estates log who may update a token. A log carries its arguments as
topics of sixty-four hexadecimal digits. A token id is turned into decimal digits, one hexadecimal
digit at a time, since no machine word holds it.
-/

namespace Catalyrst.LandAuthz

open Catalyrst.Lib Catalyrst.Lib.Fallible

abbrev Text := List Char

def LAND_REGISTRY_MAINNET : Text := "0xf87e31492faf9a91b02ee0deaad50d51d56d5d4d".toList

def ESTATE_REGISTRY_MAINNET : Text := "0x959e104e1a4db6317fa58f8295f586e1a978c297".toList

def LAND_START_BLOCK_MAINNET : ℕ := 4944642

def TOPIC_UPDATE_OPERATOR : Text :=
  "0x9d9dd80a56a16f715df6eb40b771e24ff8cbea6eed9de28473ce0f28fe5602a9".toList

def TOPIC_UPDATE_MANAGER : Text :=
  "0xd79fbfe1644c022b9150727d871532bfcc3e27ffee86fc596a062770ac97b042".toList

def TOPIC_APPROVAL_FOR_ALL : Text :=
  "0x17307eab39ab6107e8899845ad3d59bd9653f200f220920489ca2b5937696c31".toList

def TOPIC_APPROVAL : Text :=
  "0x8c5be1e5ebec7d5bd14f71427d1e84f3dd0314c0f7b2291e5b200ac8c7c3b925".toList

def TOPIC_TRANSFER_3 : Text :=
  "0xddf252ad1be2c89b69c2b068fc378daa952ba7f163c4a11628f55a4df523b3ef".toList

def TOPIC_TRANSFER_5 : Text :=
  "0xd5c97f2e041b2046be3b4337472f05720760a198f4d7d84980b7155eec7cca6f".toList

def TOPIC_TRANSFER_6 : Text :=
  "0x8988d59efc2c4547ef86c88f6543963bab0cea94f8e486e619c7c3a790db93be".toList

inductive Kind where
  | updateOperator
  | approval
  | transfer
  | updateManager
  | approvedForAll
deriving DecidableEq, Repr

structure AuthzEvent where
  blockNumber : ℤ
  logIndex : ℤ
  blockTime : ℤ
  tokenAddress : Text
  kind : Kind
  tokenId : Option Text
  account : Option Text
  operator : Option Text
  approved : Option Bool
deriving DecidableEq, Repr

inductive DecodeError where
  | noTopic
  | unhandledTopic (topic : Text)
  | topicArity (topic : Text) (want got : ℕ)
  | field (field : Text)
deriving DecidableEq, Repr

/-! ### Arguments -/

def toDigit16 (c : Char) : Option ℕ :=
  if c.isDigit then some (c.toNat - 48)
  else if 97 ≤ c.toNat ∧ c.toNat ≤ 102 then some (c.toNat - 87)
  else if 65 ≤ c.toNat ∧ c.toNat ≤ 70 then some (c.toNat - 55)
  else none

def stripPrefix0x : Text → Option Text
  | '0' :: 'x' :: s => some s
  | _ => none

def addrFromTopic (topic : Text) : Option Text := do
  let hex ← stripPrefix0x topic
  if hex.length ≠ 64 then none
  else some ("0x".toList ++ (hex.drop 24).map Char.toLower)

/-- Digits, the least first, times sixteen plus a carry. -/
def mulAdd : List ℕ → ℕ → List ℕ
  | [], carry => Nat.digits 10 carry
  | d :: digits, carry => ((d * 16 + carry) % 10) :: mulAdd digits ((d * 16 + carry) / 10)

/-- Zeros before the first digit, but for a last one. -/
def popZeros : List ℕ → List ℕ
  | [] => []
  | [d] => [d]
  | d :: e :: digits => if d = 0 then popZeros (e :: digits) else d :: e :: digits

def u256TopicToDecimal (topic : Text) : Option Text := do
  let hex ← stripPrefix0x topic
  if hex.length ≠ 64 then none
  else
    let nibbles ← hex.mapM toDigit16
    some ((popZeros (nibbles.foldl mulAdd [0]).reverse).map Nat.digitChar)

def firstWordBool (data : Text) : Option Bool := do
  let hex ← stripPrefix0x data
  if hex.length < 64 then none
  else some ((hex.take 64).any fun c => c ≠ '0')

def need (topics : List Text) (want : ℕ) (topic : Text) : Except DecodeError Unit :=
  if topics.length < want then .error (.topicArity topic want topics.length) else .ok ()

def orField {α : Type} (value : Option α) (field : Text) : Except DecodeError α :=
  match value with
  | some a => .ok a
  | none => .error (.field field)

def decodeLog (address : Text) (topics : List Text) (data : Text)
    (blockNumber logIndex blockTime : ℤ) : Except DecodeError AuthzEvent := do
  let some topic := topics.head? | throw .noTopic
  let topic0 := topic.map Char.toLower
  let arg (i : ℕ) : Text := topics.getD i []
  let base (kind : Kind) : AuthzEvent := {
    blockNumber := blockNumber
    logIndex := logIndex
    blockTime := blockTime
    tokenAddress := address.map Char.toLower
    kind := kind
    tokenId := none
    account := none
    operator := none
    approved := none }
  if topic0 = TOPIC_UPDATE_OPERATOR then
    need topics 3 "UpdateOperator".toList
    let tokenId ← orField (u256TopicToDecimal (arg 1)) "assetId".toList
    let operator ← orField (addrFromTopic (arg 2)) "operator".toList
    return { base .updateOperator with tokenId := some tokenId, operator := some operator }
  else if topic0 = TOPIC_APPROVAL then
    need topics 4 "Approval".toList
    let tokenId ← orField (u256TopicToDecimal (arg 3)) "assetId".toList
    let operator ← orField (addrFromTopic (arg 2)) "operator".toList
    return { base .approval with
      tokenId := some tokenId
      account := addrFromTopic (arg 1)
      operator := some operator }
  else if topic0 = TOPIC_TRANSFER_3 ∨ topic0 = TOPIC_TRANSFER_5 ∨ topic0 = TOPIC_TRANSFER_6 then
    need topics 4 "Transfer".toList
    let tokenId ← orField (u256TopicToDecimal (arg 3)) "assetId".toList
    return { base .transfer with tokenId := some tokenId, account := addrFromTopic (arg 2) }
  else if topic0 = TOPIC_UPDATE_MANAGER then
    need topics 4 "UpdateManager".toList
    let account ← orField (addrFromTopic (arg 1)) "_owner".toList
    let operator ← orField (addrFromTopic (arg 2)) "_operator".toList
    let approved ← orField (firstWordBool data) "_approved".toList
    return { base .updateManager with
      account := some account
      operator := some operator
      approved := some approved }
  else if topic0 = TOPIC_APPROVAL_FOR_ALL then
    need topics 3 "ApprovalForAll".toList
    let account ← orField (addrFromTopic (arg 1)) "holder".toList
    let operator ← orField (addrFromTopic (arg 2)) "operator".toList
    let approved ← orField (firstWordBool data) "authorized".toList
    return { base .approvedForAll with
      account := some account
      operator := some operator
      approved := some approved }
  else throw (.unhandledTopic topic0)

/-- The place of an event is that of its log. -/
theorem decodeLog_place {address data : Text} {topics : List Text} {block index time : ℤ}
    {e : AuthzEvent} (h : decodeLog address topics data block index time = .ok e) :
    e.blockNumber = block ∧ e.logIndex = index := by
  unfold decodeLog at h
  split at h
  · dsimp only at h
    split_ifs at h
    · obtain ⟨-, -, h⟩ := bind_ok.mp h
      obtain ⟨tokenId, -, h⟩ := bind_ok.mp h
      obtain ⟨operator, -, h⟩ := bind_ok.mp h
      cases h
      exact ⟨rfl, rfl⟩
    · obtain ⟨-, -, h⟩ := bind_ok.mp h
      obtain ⟨tokenId, -, h⟩ := bind_ok.mp h
      obtain ⟨operator, -, h⟩ := bind_ok.mp h
      cases h
      exact ⟨rfl, rfl⟩
    · obtain ⟨-, -, h⟩ := bind_ok.mp h
      obtain ⟨tokenId, -, h⟩ := bind_ok.mp h
      cases h
      exact ⟨rfl, rfl⟩
    · obtain ⟨-, -, h⟩ := bind_ok.mp h
      obtain ⟨account, -, h⟩ := bind_ok.mp h
      obtain ⟨operator, -, h⟩ := bind_ok.mp h
      obtain ⟨approved, -, h⟩ := bind_ok.mp h
      cases h
      exact ⟨rfl, rfl⟩
    · obtain ⟨-, -, h⟩ := bind_ok.mp h
      obtain ⟨account, -, h⟩ := bind_ok.mp h
      obtain ⟨operator, -, h⟩ := bind_ok.mp h
      obtain ⟨approved, -, h⟩ := bind_ok.mp h
      cases h
      exact ⟨rfl, rfl⟩
  · cases h

/-! ### Decimal digits -/

theorem ofDigits_mulAdd (digits : List ℕ) (carry : ℕ) :
    Nat.ofDigits 10 (mulAdd digits carry) = 16 * Nat.ofDigits 10 digits + carry := by
  induction digits generalizing carry with
  | nil => simp [mulAdd, Nat.ofDigits_digits]
  | cons d digits ih =>
    rw [mulAdd, Nat.ofDigits_cons, Nat.ofDigits_cons, ih]
    have hsplit := Nat.mod_add_div (d * 16 + carry) 10
    omega

theorem mulAdd_lt {digits : List ℕ} (h : ∀ d ∈ digits, d < 10) (carry : ℕ) :
    ∀ d ∈ mulAdd digits carry, d < 10 := by
  induction digits generalizing carry with
  | nil =>
    intro d hd
    exact Nat.digits_lt_base (by norm_num) hd
  | cons d digits ih =>
    intro e he
    rw [mulAdd] at he
    rcases List.mem_cons.mp he with rfl | he
    · exact Nat.mod_lt _ (by norm_num)
    · exact ih (fun x hx => h x (List.mem_cons_of_mem d hx)) _ e he

theorem mulAdd_ne_nil {digits : List ℕ} (h : digits ≠ []) (carry : ℕ) : mulAdd digits carry ≠ [] := by
  cases digits with
  | nil => exact absurd rfl h
  | cons d digits => simp [mulAdd]

/-- The value of hexadecimal digits, the first the highest. -/
def hexValue (nibbles : List ℕ) : ℕ := nibbles.foldl (fun v n => 16 * v + n) 0

theorem foldl_mulAdd (nibbles digits : List ℕ) (h : ∀ d ∈ digits, d < 10) (hne : digits ≠ []) :
    Nat.ofDigits 10 (nibbles.foldl mulAdd digits) =
        nibbles.foldl (fun v n => 16 * v + n) (Nat.ofDigits 10 digits) ∧
      (∀ d ∈ nibbles.foldl mulAdd digits, d < 10) ∧ nibbles.foldl mulAdd digits ≠ [] := by
  induction nibbles generalizing digits with
  | nil => exact ⟨rfl, h, hne⟩
  | cons n nibbles ih =>
    have hrest := ih (mulAdd digits n) (mulAdd_lt h n) (mulAdd_ne_nil hne n)
    rw [ofDigits_mulAdd] at hrest
    exact hrest

/-- Digits, the highest first, without zeros before them: the numeral of their value. -/
theorem popZeros_reverse {digits : List ℕ} (h : ∀ d ∈ digits, d < 10) (hne : digits ≠ []) :
    popZeros digits.reverse =
      if Nat.ofDigits 10 digits = 0 then [0] else (Nat.digits 10 (Nat.ofDigits 10 digits)).reverse := by
  induction digits using List.reverseRecOn with
  | nil => exact absurd rfl hne
  | append_singleton digits d ih =>
    have hd : d < 10 := h d (by simp)
    have hlt : ∀ e ∈ digits, e < 10 := fun e he => h e (by simp [he])
    rw [List.reverse_append, List.reverse_singleton, List.singleton_append]
    by_cases hzero : d = 0
    · subst hzero
      have hvalue : Nat.ofDigits 10 (digits ++ [0]) = Nat.ofDigits 10 digits := by
        simp [Nat.ofDigits_append]
      rw [hvalue]
      cases hrev : digits.reverse with
      | nil =>
        obtain rfl := List.reverse_eq_nil_iff.mp hrev
        rfl
      | cons e rest =>
        have hne' : digits ≠ [] := by
          intro hnil
          rw [hnil] at hrev
          cases hrev
        rw [popZeros, if_pos rfl, ← hrev]
        exact ih hlt hne'
    · have hdigits : Nat.digits 10 (Nat.ofDigits 10 (digits ++ [d])) = digits ++ [d] := by
        refine Nat.digits_ofDigits 10 (by norm_num) _ h ?_
        intro _
        rw [List.getLast_append_singleton]
        exact hzero
      have hpos : Nat.ofDigits 10 (digits ++ [d]) ≠ 0 := by
        intro hnil
        rw [hnil] at hdigits
        simp at hdigits
      rw [if_neg hpos, hdigits, List.reverse_append, List.reverse_singleton, List.singleton_append]
      cases hrev : digits.reverse with
      | nil => rfl
      | cons e rest => rw [popZeros, if_neg hzero]

theorem toDigits_eq (n : ℕ) :
    Nat.toDigits 10 n =
      if n = 0 then ['0'] else (Nat.digits 10 n).reverse.map Nat.digitChar := by
  induction n using Nat.strong_induction_on with
  | _ n ih =>
    by_cases hlt : n < 10
    · rw [Nat.toDigits_of_lt_base hlt]
      by_cases hzero : n = 0
      · rw [if_pos hzero, hzero]
        rfl
      · rw [if_neg hzero, Nat.digits_of_lt 10 n hzero hlt]
        rfl
    · have hdiv : n / 10 ≠ 0 := by omega
      rw [Nat.toDigits_of_base_le (by norm_num) (by omega), ih (n / 10) (by omega), if_neg hdiv,
        if_neg (by omega), Nat.digits_def' (by norm_num) (show 0 < n by omega),
        List.reverse_cons, List.map_append]
      rfl

theorem u256TopicToDecimal_eq {hex : Text} {nibbles : List ℕ} (hlen : hex.length = 64)
    (hnibbles : hex.mapM toDigit16 = some nibbles) :
    u256TopicToDecimal ('0' :: 'x' :: hex) = some (Nat.toDigits 10 (hexValue nibbles)) := by
  obtain ⟨hvalue, hlt, hne⟩ := foldl_mulAdd nibbles [0] (by simp) (by simp)
  have hpop := popZeros_reverse hlt hne
  have hstart : Nat.ofDigits 10 [0] = 0 := rfl
  rw [hvalue, hstart] at hpop
  simp only [u256TopicToDecimal, stripPrefix0x, Option.bind_eq_bind, Option.bind_some, hlen,
    ne_eq, not_true_eq_false, if_false, hnibbles, hpop, toDigits_eq]
  unfold hexValue
  split
  · rfl
  · rfl

/-- Every topic of sixty-four hexadecimal digits is turned into the decimal numeral of its value,
which the database reads as that value. -/
theorem u256TopicToDecimal_value {hex : Text} {nibbles : List ℕ} (hlen : hex.length = 64)
    (hnibbles : hex.mapM toDigit16 = some nibbles) :
    ∃ numeral, u256TopicToDecimal ('0' :: 'x' :: hex) = some numeral ∧
      numeral = Nat.toDigits 10 (hexValue nibbles) ∧ Numeral.wholeOf numeral = hexValue nibbles :=
  ⟨_, u256TopicToDecimal_eq hlen hnibbles, rfl, Nat.ofDigitChars_ten_toDigits⟩

theorem u256TopicToDecimal_value_ff :
    ∃ numeral, u256TopicToDecimal ('0' :: 'x' :: List.replicate 64 'f') = some numeral ∧
      numeral = Nat.toDigits 10 (hexValue (List.replicate 64 15)) ∧
      Numeral.wholeOf numeral = hexValue (List.replicate 64 15) :=
  u256TopicToDecimal_value (List.length_replicate ..) (by decide)

end Catalyrst.LandAuthz
