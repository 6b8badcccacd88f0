import OpsControlPlane.Lib.Calls
import OpsControlPlane.Orchestrator.Finance

/-!
# Finance snapshots from the provider to the table

A parser normalizes the amounts of a balance, and two more layers check them before they are
stored. `parse_normalised` says what a parser can answer as long as no amount is one of the two
the layers disagree on (`Fits`), `report_of_normalised` and `balancesJson_of_normalised` that the
client and the database take each such answer. `persist_cases` is about the loop over the
results: each snapshot is appended in a transaction of its own, so a refresh that is stopped
keeps what was appended before.
-/

namespace OpsOrchestrator

namespace Finance

open Text JsonText Decimals Regex Calls

variable {F : Type} {u : Unicode} {registry : Registry}

/-! ## Amounts -/

/-- An amount the layers agree on: no negative zero, and not the largest amount the parsers
take, which has a digit more than the database allows. -/
def Fits (s : String) : Prop :=
  s ≠ "-0" ∧ s ≠ "1000000000000000"

def AmountsFit (balances : List (Json F)) : Prop :=
  ∀ kvs, Json.obj kvs ∈ balances → ∀ k s, (k, Json.str s) ∈ kvs → Fits s

/-- The text of an amount below `10 ^ 15`. -/
def Normal (s : String) : Prop :=
  ∃ q cs, s = ofChars cs ∧ Plain q cs ∧ q < 10 ^ 15

variable {s available status text : String} {v raw : Json Decimal}

/-- A parser takes no amount but the normal ones and the two on which the layers disagree. -/
theorem amount_normal {label : String} (h : amount u label v = .ok s) (hfits : Fits s) :
    Normal s := by
  unfold amount at h
  split at h
  · next neg coeff exp _ =>
    split_ifs at h with hbound hexp
    obtain rfl := Except.ok.inj h
    obtain ⟨hneg, habove⟩ := not_or.1 hbound
    cases neg with
    | false =>
      obtain ⟨q, hplain, hq⟩ := plain_trimmed (not_lt.1 hexp) habove
      have hrendered : rendered false coeff exp = ofChars (trimmed (fixedMagnitude coeff exp)) := by
        have hfixed : fixed false coeff exp = fixedMagnitude coeff exp := rfl
        rw [rendered, hfixed, if_neg hplain.ne_nil]
      refine ⟨q, _, hrendered, hplain, hq.resolve_right fun htop => hfits.2 ?_⟩
      rw [hrendered, htop]
      decide +kernel
    | true =>
      have hzero : coeff = 0 := by
        by_contra hne
        exact hneg ⟨rfl, hne⟩
      subst hzero
      refine absurd ?_ hfits.1
      rw [rendered, trimmed_negative_zero, if_neg (by decide)]
      decide +kernel
  · cases h

/-- The two amounts on which the layers disagree: the client refuses a negative zero, and the
database the largest amount the client takes. -/
example : amountText (fun _ => true) (toChars "-0") = false ∧
    amountText (fun _ => true) (toChars "1000000000000000") = true ∧
    amountText (fun n => n ≤ 15) (toChars "1000000000000000") = false := by
  decide +kernel

theorem checkAmount_normal (h : Normal s) : checkAmount u (.str s : Json F) = .ok () := by
  obtain ⟨q, cs, rfl, hplain, hq⟩ := h
  obtain ⟨coeff, exp, htext, habove⟩ := ofText_plain (u := u) hplain hq
  have hpattern : amountText (fun _ => true) cs = true := amountText_of_plain hplain rfl
  simp only [checkAmount, toChars_ofChars, hpattern, htext, if_true]
  rw [if_neg]
  rintro (⟨hneg, -⟩ | h)
  · cases hneg
  · exact habove h

theorem amountText_normal (h : Normal s) : amountText (fun n => n ≤ 15) (toChars s) = true := by
  obtain ⟨q, cs, rfl, hplain, hq⟩ := h
  rw [toChars_ofChars]
  exact amountText_of_plain hplain
    (decide_eq_true ((Nat.length_toDigits_le_iff (by decide) (by decide)).2 hq))

theorem length_normal (h : Normal s) : (toChars s).length ≤ 28 := by
  obtain ⟨q, cs, rfl, hplain, hq⟩ := h
  rw [toChars_ofChars]
  exact hplain.length_le (by decide) hq

/-! ## Balances -/

abbrev deepseekEntry (currency available granted toppedUp : String) : Json F :=
  .obj [("currency", .str currency), ("available", .str available), ("granted", .str granted),
    ("topped_up", .str toppedUp)]

abbrev moonshotEntry (available cash voucher : String) : Json F :=
  .obj [("currency", .null), ("available", .str available), ("cash", .str cash),
    ("voucher", .str voucher)]

abbrev stepfunEntry (available totalCash totalVoucher billingType : String) : Json F :=
  .obj [("currency", .null), ("available", .str available), ("total_cash", .str totalCash),
    ("total_voucher", .str totalVoucher), ("billing_type", .str billingType)]

/-- Balances of DeepSeek in currencies not seen before. -/
inductive DeepseekList : List String → List (Json F) → Prop
  | nil {seen : List String} : DeepseekList seen []
  | cons {seen : List String} {c available granted toppedUp : String} {balances : List (Json F)}
    (hc : c ∈ ["CNY", "USD"]) (hseen : c ∉ seen) (havailable : Normal available)
    (hgranted : Normal granted) (htoppedUp : Normal toppedUp)
    (rest : DeepseekList (c :: seen) balances) :
    DeepseekList seen (deepseekEntry c available granted toppedUp :: balances)

/-- What the parser of a provider answers with amounts that fit. -/
inductive Normalised : Connector → Parsed F → Prop
  | deepseek {isAvailable : Bool} {balances : List (Json F)} (hne : balances ≠ [])
    (h : DeepseekList [] balances) : Normalised .deepseek (some isAvailable, balances)
  | moonshot {available cash voucher : String} (havailable : Normal available)
    (hcash : Normal cash) (hvoucher : Normal voucher) :
    Normalised .moonshot (none, [moonshotEntry available cash voucher])
  | stepfun {available totalCash totalVoucher billingType : String}
    (havailable : Normal available) (htotalCash : Normal totalCash)
    (htotalVoucher : Normal totalVoucher) (hbilling : billingType ∈ ["prepaid", "postpaid"]) :
    Normalised .stepfun (none, [stepfunEntry available totalCash totalVoucher billingType])

variable {seen : List String}

theorem deepseekCurrency_ok {c : String} (h : deepseekCurrency seen v = .ok c) :
    c ∈ ["CNY", "USD"] ∧ c ∉ seen := by
  unfold deepseekCurrency at h
  split at h
  · split_ifs at h with hc
    obtain rfl := Except.ok.inj h
    exact hc
  · cases h
  · cases h
  · cases h

variable {balances : List (Json F)}

theorem AmountsFit.tail {balance : Json F} (h : AmountsFit (balance :: balances)) :
    AmountsFit balances :=
  fun kvs hkvs => h kvs (List.mem_cons_of_mem _ hkvs)

variable {infos : List (Json Decimal)}

/-- The loop over the balances sees each currency once. -/
theorem deepseekBalances_normal (h : deepseekBalances u seen infos = .ok balances)
    (hfits : AmountsFit balances) : DeepseekList seen balances := by
  induction infos generalizing seen balances with
  | nil =>
    obtain rfl := Except.ok.inj h
    exact .nil
  | cons raw infos ih =>
    rw [deepseekBalances] at h
    obtain ⟨balance, hbalance, h⟩ := bind_eq_ok.1 h
    obtain ⟨rest, hrest, h⟩ := bind_eq_ok.1 h
    obtain rfl := Except.ok.inj h
    rw [deepseekBalance] at hbalance
    obtain ⟨info, -, hbalance⟩ := bind_eq_ok.1 hbalance
    obtain ⟨c, hc, hbalance⟩ := bind_eq_ok.1 hbalance
    obtain ⟨available, havailable, hbalance⟩ := bind_eq_ok.1 hbalance
    obtain ⟨granted, hgranted, hbalance⟩ := bind_eq_ok.1 hbalance
    obtain ⟨toppedUp, htoppedUp, hbalance⟩ := bind_eq_ok.1 hbalance
    obtain rfl := Except.ok.inj hbalance
    obtain ⟨hmem, hseen⟩ := deepseekCurrency_ok hc
    have hhead := hfits _ List.mem_cons_self
    exact .cons hmem hseen (amount_normal havailable (hhead "available" _ (by simp)))
      (amount_normal hgranted (hhead "granted" _ (by simp)))
      (amount_normal htoppedUp (hhead "topped_up" _ (by simp))) (ih hrest hfits.tail)

theorem length_deepseekBalances (h : deepseekBalances u seen infos = .ok balances) :
    balances.length = infos.length := by
  induction infos generalizing seen balances with
  | nil =>
    obtain rfl := Except.ok.inj h
    rfl
  | cons raw infos ih =>
    rw [deepseekBalances] at h
    obtain ⟨balance, -, h⟩ := bind_eq_ok.1 h
    obtain ⟨rest, hrest, h⟩ := bind_eq_ok.1 h
    obtain rfl := Except.ok.inj h
    rw [List.length_cons, List.length_cons, ih hrest]

variable {parsed : Parsed F}

/-- A response with amounts that fit is parsed to balances of its provider. -/
theorem parse_normalised {c : Connector} (h : c.parse u raw = .ok parsed)
    (hfits : AmountsFit parsed.2) : Normalised c parsed := by
  cases c with
  | deepseek =>
    obtain ⟨root, -, h⟩ := bind_eq_ok.1 h
    split at h
    · next isAvailable infos _ _ =>
      split_ifs at h with hlen
      obtain ⟨balances, hbalances, h⟩ := bind_eq_ok.1 h
      obtain rfl := Except.ok.inj h
      refine .deepseek (fun hnil => ?_) (deepseekBalances_normal hbalances hfits)
      have := length_deepseekBalances hbalances
      rw [hnil, List.length_nil] at this
      omega
    · cases h
  | moonshot =>
    obtain ⟨root, -, h⟩ := bind_eq_ok.1 h
    split at h
    · obtain ⟨data, -, h⟩ := bind_eq_ok.1 h
      obtain ⟨available, havailable, h⟩ := bind_eq_ok.1 h
      obtain ⟨cash, hcash, h⟩ := bind_eq_ok.1 h
      obtain ⟨voucher, hvoucher, h⟩ := bind_eq_ok.1 h
      obtain rfl := Except.ok.inj h
      have hfit := hfits _ List.mem_cons_self
      exact .moonshot (amount_normal havailable (hfit "available" _ (by simp)))
        (amount_normal hcash (hfit "cash" _ (by simp)))
        (amount_normal hvoucher (hfit "voucher" _ (by simp)))
    · cases h
  | stepfun =>
    obtain ⟨root, -, h⟩ := bind_eq_ok.1 h
    split at h
    · next billingType _ _ =>
      split_ifs at h with hbilling
      obtain ⟨available, havailable, h⟩ := bind_eq_ok.1 h
      obtain ⟨totalCash, htotalCash, h⟩ := bind_eq_ok.1 h
      obtain ⟨totalVoucher, htotalVoucher, h⟩ := bind_eq_ok.1 h
      obtain rfl := Except.ok.inj h
      have hfit := hfits _ List.mem_cons_self
      exact .stepfun (amount_normal havailable (hfit "available" _ (by simp)))
        (amount_normal htotalCash (hfit "total_cash" _ (by simp)))
        (amount_normal htotalVoucher (hfit "total_voucher" _ (by simp))) hbilling
    · cases h

/-! ## The client -/

theorem mem_currencies {c : String} (h : c ∈ ["CNY", "USD"]) : c = "CNY" ∨ c = "USD" := by
  simpa using h

theorem checkDeepseek_of_list (h : DeepseekList seen balances) :
    checkDeepseek u seen balances = .ok () := by
  induction h with
  | nil => rfl
  | @cons seen c available granted toppedUp balances hc hseen havailable hgranted htoppedUp _ ih =>
    rw [checkDeepseek]
    refine bind_eq_ok.2 ⟨_, rfl, ?_⟩
    have hcurrency : c ∈ ["CNY", "USD"] ∧ c ∉ seen := ⟨hc, hseen⟩
    show (if c ∈ ["CNY", "USD"] ∧ c ∉ seen then _ else _) = _
    rw [if_pos hcurrency]
    refine bind_eq_ok.2 ⟨(), ?_, ih⟩
    refine bind_eq_ok.2 ⟨(), checkAmount_normal havailable, ?_⟩
    refine bind_eq_ok.2 ⟨(), checkAmount_normal hgranted, ?_⟩
    exact bind_eq_ok.2 ⟨(), checkAmount_normal htoppedUp, rfl⟩

theorem DeepseekList.length_le (h : DeepseekList [] balances) : balances.length ≤ 2 := by
  cases h with
  | nil => exact Nat.zero_le _
  | @cons _ c₁ _ _ _ _ hc₁ _ _ _ _ rest =>
    cases rest with
    | nil => exact Nat.le_succ _
    | @cons _ c₂ _ _ _ _ hc₂ hseen₂ _ _ _ rest =>
      cases rest with
      | nil => exact le_rfl
      | @cons _ c₃ _ _ _ _ hc₃ hseen₃ _ _ _ _ =>
        -- a third currency has been seen
        rcases mem_currencies hc₁ with rfl | rfl <;> rcases mem_currencies hc₂ with rfl | rfl <;>
          rcases mem_currencies hc₃ with rfl | rfl <;> simp at hseen₂ hseen₃

theorem connector_accountId (c : Connector) : connector? c.accountId = some c := by
  cases c <;> decide

theorem validateBalances_of_normalised {c : Connector} (h : Normalised c parsed) :
    validateBalances u c.accountId (.arr parsed.2) = .ok () := by
  unfold validateBalances
  cases h with
  | @deepseek isAvailable balances hne hlist =>
    have hlen : balances.length ≤ 8 := hlist.length_le.trans (by decide)
    dsimp only
    rw [if_pos ⟨List.length_pos_iff.2 hne, hlen⟩, connector_accountId]
    exact checkDeepseek_of_list hlist
  | @moonshot available cash voucher havailable hcash hvoucher =>
    dsimp only
    rw [if_pos (by simp), connector_accountId]
    show checkMoonshot u _ = _
    refine bind_eq_ok.2 ⟨_, rfl, ?_⟩
    refine bind_eq_ok.2 ⟨(), checkAmount_normal havailable, ?_⟩
    refine bind_eq_ok.2 ⟨(), checkAmount_normal hcash, ?_⟩
    exact bind_eq_ok.2 ⟨(), checkAmount_normal hvoucher, rfl⟩
  | @stepfun available totalCash totalVoucher billingType havailable htotalCash htotalVoucher hb =>
    have hbilling : some billingType = some "prepaid" ∨ some billingType = some "postpaid" := by
      simpa using hb
    dsimp only
    rw [if_pos (by simp), connector_accountId]
    show checkStepfun u _ = _
    refine bind_eq_ok.2 ⟨_, rfl, ?_⟩
    refine (if_pos ⟨rfl, hbilling⟩).trans ?_
    refine bind_eq_ok.2 ⟨(), checkAmount_normal havailable, ?_⟩
    refine bind_eq_ok.2 ⟨(), checkAmount_normal htotalCash, ?_⟩
    exact bind_eq_ok.2 ⟨(), checkAmount_normal htotalVoucher, rfl⟩

/-! ## The database -/

theorem checkField_normal {k : String} (hk : k ≠ "currency") (hk' : k ≠ "billing_type")
    (h : Normal s) : checkField (k, (.str s : Json F)) = .ok () := by
  have hamount : (text? (.str s : Json F)).any
      (fun s => amountText (fun n => n ≤ 15) (toChars s)) = true := amountText_normal h
  rw [checkField, if_neg hk, if_neg hk', if_pos hamount]

theorem forM_ok {α : Type} {f : α → Except Exc Unit} {xs : List α} (h : ∀ x ∈ xs, f x = .ok ()) :
    xs.forM f = .ok () := by
  induction xs with
  | nil => rfl
  | cons x xs ih =>
    exact bind_eq_ok.2 ⟨(), h x List.mem_cons_self, ih fun y hy => h y (List.mem_cons_of_mem _ hy)⟩

theorem length_toAscii_le (l : List Char) : (toAscii l).length ≤ 12 * l.length := by
  induction l with
  | nil => simp [toAscii]
  | cons c l ih =>
    have hchar : (asciiChar c).length ≤ 12 := by
      unfold asciiChar
      split_ifs <;> simp [unitText]
    rw [toAscii, List.flatMap_cons, List.length_append, List.length_cons]
    have := ih
    rw [toAscii] at this
    omega

theorem length_dumpsString_le (cs : List Char) : (dumpsString cs).length ≤ 6 * cs.length + 1 := by
  induction cs with
  | nil => simp [dumpsString]
  | cons c cs ih =>
    have hchar : (escape c).length ≤ 6 := by
      unfold escape
      split_ifs <;> simp
    rw [dumpsString, List.length_append, List.length_cons]
    omega

theorem length_amount (h : Normal s) : (dumpsString (toChars s)).length ≤ 169 := by
  have := length_dumpsString_le (toChars s)
  have := length_normal h
  omega

theorem length_word {n : ℕ} (h : (toChars s).length ≤ n) :
    (dumpsString (toChars s)).length ≤ 6 * n + 1 := by
  have := length_dumpsString_le (toChars s)
  omega

variable [FloatText F]

/-- A text of a list of one or two short balances is stored. -/
theorem balancesJson_fits (hlen : balances.length ≤ 2)
    (h : ∀ b ∈ balances, (dumps (sortKeys b)).length ≤ 1300) :
    (asciiCanonical (.arr balances)).length ≤ 32768 := by
  have hdumps : (dumps (sortKeys (.arr balances) : Json F)).length ≤ 2604 := by
    match balances with
    | [] => simp [sortKeys, sortKeysElems, dumps]
    | [b] =>
      have := h b (by simp)
      simp only [sortKeys, sortKeysElems, dumps, dumpsElems, List.length_cons, List.length_append,
        List.length_nil]
      omega
    | [b, b'] =>
      have := h b (by simp)
      have := h b' (by simp)
      simp only [sortKeys, sortKeysElems, dumps, dumpsElems, List.length_cons, List.length_append,
        List.length_nil]
      omega
    | _ :: _ :: _ :: _ => simp at hlen
  have hascii := length_toAscii_le (dumps (sortKeys (.arr balances) : Json F))
  rw [asciiCanonical, length_ofChars]
  omega

/-- What the database asks of a balance. -/
def Storable (entry : Json F) : Prop :=
  checkEntry entry = .ok () ∧ (dumps (sortKeys entry)).length ≤ 1300

theorem storable_obj {kvs s : List (String × Json F)} (hkeys : (keys kvs).contains "currency" ∧
      (keys kvs).contains "available" ∧ (keys kvs).all (allowedFields.contains ·))
    (hfields : ∀ kv ∈ kvs, checkField kv = .ok ()) (hsorted : sortKeysPairs kvs = s)
    (hlen : (dumps (.obj s)).length ≤ 1300) : Storable (.obj kvs) := by
  refine ⟨(if_pos hkeys).trans (forM_ok hfields), ?_⟩
  rw [sortKeys, hsorted]
  exact hlen

theorem storable_deepseek {c granted toppedUp : String} (hc : c ∈ ["CNY", "USD"])
    (havailable : Normal available) (hgranted : Normal granted) (htoppedUp : Normal toppedUp) :
    Storable (deepseekEntry c available granted toppedUp : Json F) := by
  have hcurrency : checkField ("currency", (.str c : Json F)) = .ok () := by
    rcases mem_currencies hc with rfl | rfl <;> rfl
  have hword : (dumpsString (toChars c)).length ≤ 6 * 3 + 1 := by
    refine length_word ?_
    rcases mem_currencies hc with rfl | rfl <;> decide
  refine storable_obj (s := [("available", .str available), ("currency", .str c),
    ("granted", .str granted), ("topped_up", .str toppedUp)])
    (by simp [keys, allowedFields]) ?_ ?_ ?_
  · simp only [List.forall_mem_cons, List.not_mem_nil, false_imp_iff, implies_true, and_true]
    exact ⟨hcurrency, checkField_normal (by decide) (by decide) havailable,
      checkField_normal (by decide) (by decide) hgranted,
      checkField_normal (by decide) (by decide) htoppedUp⟩
  · simp [sortKeys, sortKeysPairs, insertKey]
  · have := length_amount havailable
    have := length_amount hgranted
    have := length_amount htoppedUp
    have := length_word (s := "available") (n := 13) (by decide)
    have := length_word (s := "currency") (n := 13) (by decide)
    have := length_word (s := "granted") (n := 13) (by decide)
    have := length_word (s := "topped_up") (n := 13) (by decide)
    simp only [dumps, dumpsPairs, List.length_cons, List.length_append, List.length_nil]
    omega

theorem storable_moonshot {cash voucher : String} (havailable : Normal available)
    (hcash : Normal cash) (hvoucher : Normal voucher) :
    Storable (moonshotEntry available cash voucher : Json F) := by
  refine storable_obj (s := [("available", .str available), ("cash", .str cash),
    ("currency", .null), ("voucher", .str voucher)]) (by simp [keys, allowedFields]) ?_ ?_ ?_
  · simp only [List.forall_mem_cons, List.not_mem_nil, false_imp_iff, implies_true, and_true]
    exact ⟨rfl, checkField_normal (by decide) (by decide) havailable,
      checkField_normal (by decide) (by decide) hcash,
      checkField_normal (by decide) (by decide) hvoucher⟩
  · simp [sortKeys, sortKeysPairs, insertKey]
  · have := length_amount havailable
    have := length_amount hcash
    have := length_amount hvoucher
    have := length_word (s := "available") (n := 13) (by decide)
    have := length_word (s := "cash") (n := 13) (by decide)
    have := length_word (s := "currency") (n := 13) (by decide)
    have := length_word (s := "voucher") (n := 13) (by decide)
    simp only [dumps, dumpsPairs, List.length_cons, List.length_append, List.length_nil]
    omega

theorem storable_stepfun {totalCash totalVoucher billingType : String}
    (havailable : Normal available) (htotalCash : Normal totalCash)
    (htotalVoucher : Normal totalVoucher) (hbilling : billingType ∈ ["prepaid", "postpaid"]) :
    Storable (stepfunEntry available totalCash totalVoucher billingType : Json F) := by
  have htype : billingType = "prepaid" ∨ billingType = "postpaid" := by simpa using hbilling
  have hbilling : checkField ("billing_type", (.str billingType : Json F)) = .ok () := by
    rcases htype with rfl | rfl <;> rfl
  have hword : (dumpsString (toChars billingType)).length ≤ 6 * 8 + 1 := by
    refine length_word ?_
    rcases htype with rfl | rfl <;> decide
  refine storable_obj (s := [("available", .str available), ("billing_type", .str billingType),
    ("currency", .null), ("total_cash", .str totalCash), ("total_voucher", .str totalVoucher)])
    (by simp [keys, allowedFields]) ?_ ?_ ?_
  · simp only [List.forall_mem_cons, List.not_mem_nil, false_imp_iff, implies_true, and_true]
    exact ⟨rfl, checkField_normal (by decide) (by decide) havailable,
      checkField_normal (by decide) (by decide) htotalCash,
      checkField_normal (by decide) (by decide) htotalVoucher, hbilling⟩
  · simp [sortKeys, sortKeysPairs, insertKey]
  · have := length_amount havailable
    have := length_amount htotalCash
    have := length_amount htotalVoucher
    have := length_word (s := "available") (n := 13) (by decide)
    have := length_word (s := "billing_type") (n := 13) (by decide)
    have := length_word (s := "currency") (n := 13) (by decide)
    have := length_word (s := "total_cash") (n := 13) (by decide)
    have := length_word (s := "total_voucher") (n := 13) (by decide)
    simp only [dumps, dumpsPairs, List.length_cons, List.length_append, List.length_nil]
    omega

theorem storable_of_list (h : DeepseekList seen balances) : ∀ b ∈ balances, Storable b := by
  induction h with
  | nil => simp
  | cons hc _ havailable hgranted htoppedUp _ ih =>
    exact List.forall_mem_cons.2 ⟨storable_deepseek hc havailable hgranted htoppedUp, ih⟩

theorem storable_of_normalised {c : Connector} (h : Normalised c parsed) :
    parsed.2 ≠ [] ∧ parsed.2.length ≤ 2 ∧ ∀ b ∈ parsed.2, Storable b := by
  cases h with
  | deepseek hne hlist => exact ⟨hne, hlist.length_le, storable_of_list hlist⟩
  | moonshot havailable hcash hvoucher =>
    exact ⟨by simp, by simp, by simpa using storable_moonshot havailable hcash hvoucher⟩
  | stepfun havailable htotalCash htotalVoucher hbilling =>
    exact ⟨by simp, by simp,
      by simpa using storable_stepfun havailable htotalCash htotalVoucher hbilling⟩

theorem balancesJson_of_normalised {c : Connector} (h : Normalised c parsed) :
    ∃ kvs bs, parsed.2 = .obj kvs :: bs ∧
      financeBalancesJson (.arr parsed.2) = .ok (asciiCanonical (.arr parsed.2)) := by
  obtain ⟨hne, hlen, hstorable⟩ := storable_of_normalised h
  obtain ⟨b, bs, hbs⟩ := List.exists_cons_of_ne_nil hne
  obtain ⟨kvs, rfl⟩ : ∃ kvs, b = .obj kvs := by
    have hentry := (hstorable b (by rw [hbs]; exact List.mem_cons_self)).1
    unfold checkEntry at hentry
    split at hentry
    · exact ⟨_, rfl⟩
    · cases hentry
  refine ⟨kvs, bs, hbs, ?_⟩
  have hfits := balancesJson_fits hlen fun b hb => (hstorable b hb).2
  rw [financeBalancesJson, if_neg (by omega)]
  refine bind_eq_ok.2 ⟨(), forM_ok fun b hb => (hstorable b hb).1, ?_⟩
  rw [if_neg (by omega)]

/-! ## One result -/

variable {a : Account} {c : Connector} {x : Fetch} {kvs : List (String × Json F)}

/-- The amounts of what is accepted fit, and the fetch takes a minute at most. -/
structure Agreed (u : Unicode) (F : Type) (c : Connector) (x : Fetch) : Prop where
  amounts : ∀ raw parsed, x.transport = .ok raw → c.parse (F := F) u raw = .ok parsed →
    AmountsFit parsed.2
  duration : x.durationMs ≤ 60000

theorem account_of_mem (ha : a ∈ registry.accounts) : registry.account? a.accountId = some a := by
  have hnodup := registry.ids_nodup
  unfold Registry.account?
  generalize registry.accounts = accounts at ha hnodup
  induction accounts with
  | nil => cases ha
  | cons b accounts ih =>
    rw [List.map_cons, List.nodup_cons] at hnodup
    rcases List.mem_cons.1 ha with rfl | hmem
    · simp
    · have hne : b.accountId ≠ a.accountId := fun heq =>
        hnodup.1 (heq ▸ List.mem_map_of_mem hmem)
      rw [List.find?_cons_of_neg (by simpa using hne)]
      exact ih hmem hnodup.2

theorem connector_of_some (h : connector? a.accountId = some c) : a.accountId = c.accountId := by
  have hfound := List.find?_some (p := fun c : Connector => decide (c.accountId = a.accountId)) h
  exact (of_decide_eq_true hfound).symm

theorem validateResult_ok (hkeys : hasExactly resultFields kvs = true) (ha : a ∈ registry.accounts)
    (hid : field "provider_account_id" kvs = .str a.accountId)
    (hrevision : field "registry_revision" kvs = .str registry.revision)
    (hmode : field "cash_balance_mode" kvs = .str a.cashBalanceMode.value)
    (hrest : checkResult u a kvs = .ok ()) :
    validateResult u registry (.obj kvs) = .ok a.accountId := by
  have haccount : (text? (field "provider_account_id" kvs)).bind registry.account? = some a := by
    rw [hid]
    exact account_of_mem ha
  rw [validateResult, if_neg (by simp [hkeys]), haccount]
  dsimp only
  rw [hrevision, hmode, if_pos ⟨rfl, rfl⟩]
  exact bind_eq_ok.2 ⟨(), hrest, rfl⟩

variable {code : Option String}

theorem validateResult_snapshot (ha : a ∈ registry.accounts) (hduration : x.durationMs ≤ 60000)
    (hstatus : snapshotStatuses.contains status = true)
    (hreport : checkReport u a.accountId (pairs (snapshot registry a x status parsed code)) =
      .ok ()) :
    validateResult u registry (snapshot registry a x status parsed code) = .ok a.accountId := by
  refine validateResult_ok (by simp [hasExactly, resultFields, keys]) ha rfl rfl rfl ?_
  refine (if_neg Bool.false_ne_true).trans (bind_eq_ok.2 ⟨(), ?_, hreport⟩)
  have huuid : (text? (.str x.stamp.snapshotId : Json F)).any isUuid = true := x.stamp.uuid
  have hbool : isOptionalBool ((parsed.1.map Json.bool).getD (.null : Json F)) = true := by
    rcases parsed with ⟨_ | b, balances⟩ <;> rfl
  have hduration : ((0 : ℤ) ≤ (x.durationMs : ℤ) && (x.durationMs : ℤ) ≤ 60000) = true := by
    rw [Bool.and_eq_true, decide_eq_true_eq, decide_eq_true_eq]
    omega
  exact (if_neg (not_not_intro huuid)).trans
    (if_pos ⟨x.stamp.instant, hduration, hstatus, hbool⟩)

/-- The client takes what a connector parsed. -/
theorem report_of_normalised (ha : a.accountId = c.accountId) (h : Normalised c parsed) :
    checkReport u a.accountId (pairs (snapshot registry a x "ok" parsed none)) = .ok () := by
  have hbalances := validateBalances_of_normalised (u := u) h
  rw [← ha] at hbalances
  refine (if_pos rfl).trans ((if_neg (not_not_intro rfl)).trans ?_)
  refine (if_neg ?_).trans ((if_neg ?_).trans hbalances)
  · rintro ⟨hdeepseek, hnone⟩
    cases h with
    | deepseek => cases hnone
    | moonshot => exact absurd (ha.symm.trans hdeepseek) (by decide)
    | stepfun => exact absurd (ha.symm.trans hdeepseek) (by decide)
  · rintro ⟨hdeepseek, hsome⟩
    cases h with
    | deepseek => exact hdeepseek ha
    | moonshot => exact hsome rfl
    | stepfun => exact hsome rfl

theorem report_failure {code : String} (hstatus : status ≠ "ok") (hcode : isErrorCode code = true) :
    checkReport u a.accountId (pairs (snapshot registry a x status ((none, []) : Parsed F)
      (some code))) = .ok () := by
  have hne : ¬text? (.str status : Json F) = some "ok" := by simpa [text?] using hstatus
  exact (if_neg hne).trans (if_pos ⟨rfl, rfl, hcode⟩)

/-- The checks of the database that do not look at what a snapshot reports. -/
theorem checkSnapshot_snapshot (ha : a.accountId = c.accountId)
    (hmode : a.cashBalanceMode = .directApi) (hduration : x.durationMs ≤ 60000)
    (hstatus : snapshotStatuses.contains status = true) (hcode : ∀ s ∈ code, isErrorCode s = true)
    (hbalances : financeBalancesJson (.arr parsed.2) = .ok text)
    (hok : status = "ok" → code = none ∧ text ≠ "[]")
    (hfailed : status ≠ "ok" → code ≠ none ∧ parsed.1 = none ∧ text = "[]") :
    checkSnapshot (argsOf (snapshot registry a x status parsed code)) = .ok text := by
  have hid : isAccountId a.accountId = true := by
    rw [ha]
    cases c <;> rfl
  have hrevision : (text? (.str registry.revision : Json F)).any isRevision = true :=
    registry.revision_shape
  have hdirect : text? (.str a.cashBalanceMode.value : Json F) = some "direct_api" := by
    rw [hmode]
    rfl
  have hbool : isOptionalBool ((parsed.1.map Json.bool).getD (.null : Json F)) = true := by
    rcases parsed with ⟨_ | b, balances⟩ <;> rfl
  have htime : ((0 : ℤ) ≤ (x.durationMs : ℤ) && (x.durationMs : ℤ) ≤ 60000) = true := by
    rw [Bool.and_eq_true, decide_eq_true_eq, decide_eq_true_eq]
    omega
  have herror : isNone ((code.map Json.str).getD (.null : Json F)) = true ∨
      (text? ((code.map Json.str).getD (.null : Json F))).any isErrorCode = true := by
    cases code with
    | none => exact Or.inl rfl
    | some s => exact Or.inr (hcode s rfl)
  refine (if_neg (not_not_intro hid)).trans ((if_neg (not_not_intro hrevision)).trans ?_)
  refine (if_neg (not_not_intro hdirect)).trans ((if_neg (not_not_intro hstatus)).trans ?_)
  refine (if_neg (not_not_intro hbool)).trans ((if_neg (not_not_intro htime)).trans ?_)
  refine (if_neg (not_not_intro herror)).trans (bind_eq_ok.2 ⟨text, hbalances, ?_⟩)
  by_cases hs : status = "ok"
  · obtain ⟨rfl, htext⟩ := hok hs
    refine (if_pos (congrArg some hs)).trans (if_neg ?_)
    rintro (h | h)
    · exact h rfl
    · exact htext h
  · obtain ⟨hsome, hnone, htext⟩ := hfailed hs
    obtain ⟨s, rfl⟩ := Option.ne_none_iff_exists'.1 hsome
    refine (if_neg fun h => hs (Option.some.inj h)).trans (if_neg ?_)
    rintro (h | h | h)
    · cases h
    · refine h ?_
      show isNone ((parsed.1.map Json.bool).getD (.null : Json F)) = true
      rw [hnone]
      rfl
    · exact h htext

theorem financeBalancesJson_nil : financeBalancesJson (.arr [] : Json F) = .ok "[]" := by
  have htext : asciiCanonical (.arr [] : Json F) = "[]" := by
    show ofChars (toAscii ['[', ']']) = "[]"
    rfl
  rw [financeBalancesJson, if_neg (by simp)]
  refine bind_eq_ok.2 ⟨(), rfl, ?_⟩
  rw [htext]
  rfl

theorem asciiCanonical_obj {bs : List (Json F)} :
    asciiCanonical (.arr (.obj kvs :: bs)) ≠ "[]" := by
  intro h
  have hnil : "[]" = ofChars ['[', ']'] := rfl
  have hchars := ofChars_injective (h.trans hnil)
  obtain ⟨rest, hrest⟩ : ∃ rest, dumps (.obj (sortKeysPairs kvs) : Json F) = '{' :: rest := by
    cases sortKeysPairs kvs with
    | nil => exact ⟨_, rfl⟩
    | cons kv kvs => exact ⟨_, rfl⟩
  rw [sortKeys, sortKeysElems, sortKeys, dumps, hrest] at hchars
  have hsecond := congrArg (fun l => l.tail.head?) hchars
  exact absurd hsecond (by simp [toAscii, asciiChar])

theorem accepted_of_parsed (ha : a ∈ registry.accounts) (hid : a.accountId = c.accountId)
    (hmode : a.cashBalanceMode = .directApi) (hagreed : Agreed u F c x)
    (htransport : x.transport = .ok raw) (hparsed : c.parse u raw = .ok parsed) :
    validateResult u registry (snapshot registry a x "ok" parsed none) = .ok a.accountId ∧
      ∃ text, checkSnapshot (argsOf (snapshot registry a x "ok" parsed none)) = .ok text := by
  have hnormal := parse_normalised hparsed (hagreed.amounts raw parsed htransport hparsed)
  obtain ⟨kvs, bs, hbs, hjson⟩ := balancesJson_of_normalised hnormal
  refine ⟨validateResult_snapshot ha hagreed.duration (by decide)
    (report_of_normalised hid hnormal), _, checkSnapshot_snapshot hid hmode hagreed.duration
    (by decide) (by simp) hjson (fun _ => ⟨rfl, ?_⟩) fun h => absurd rfl h⟩
  rw [hbs]
  exact asciiCanonical_obj

theorem accepted_failure (status code : String) (ha : a ∈ registry.accounts)
    (hid : a.accountId = c.accountId) (hmode : a.cashBalanceMode = .directApi)
    (hduration : x.durationMs ≤ 60000) (hstatus : snapshotStatuses.contains status = true)
    (hfailed : status ≠ "ok") (hcode : isErrorCode code = true) :
    validateResult u registry (snapshot registry a x status ((none, []) : Parsed F) (some code)) =
        .ok a.accountId ∧
      ∃ text, checkSnapshot (argsOf (snapshot registry a x status ((none, []) : Parsed F)
        (some code))) = .ok text :=
  ⟨validateResult_snapshot ha hduration hstatus (report_failure hfailed hcode), "[]",
    checkSnapshot_snapshot hid hmode hduration hstatus (by simpa using hcode)
      financeBalancesJson_nil
      (fun h => absurd h hfailed) fun _ => ⟨by simp, rfl, rfl⟩⟩

/-- The accounts with a direct connector are those with a parser. -/
def Connected (registry : Registry) : Prop :=
  ∀ a ∈ registry.accounts, a.cashBalanceMode = .directApi → (connector? a.accountId).isSome = true

/-- What the layers do with a result of the worker: the client takes it, and when it has a
snapshot the database takes its fields. -/
def Taken (u : Unicode) (registry : Registry) (a : Account) (result : Json F) : Prop :=
  validateResult u registry result = .ok a.accountId ∧
    (isStatic result = false → ∃ text, checkSnapshot (argsOf result) = .ok text)

theorem taken_direct (ha : a ∈ registry.accounts) (hid : a.accountId = c.accountId)
    (hmode : a.cashBalanceMode = .directApi) (hagreed : Agreed u F c x) :
    Taken u registry a (refreshDirect u registry a c x : Json F) := by
  unfold refreshDirect
  split_ifs
  · split
    · next e _ =>
      have h := accepted_failure (F := F) (u := u) "provider_unavailable" e.code ha hid hmode
        hagreed.duration (by decide) (by decide)
        (by cases e <;> rfl)
      exact ⟨h.1, fun _ => h.2⟩
    · next raw htransport =>
      split
      · have h := accepted_failure (F := F) (u := u) "unsupported_schema"
          "response_schema_mismatch" ha hid hmode hagreed.duration (by decide) (by decide)
          rfl
        exact ⟨h.1, fun _ => h.2⟩
      · next parsed hparsed =>
        have h := accepted_of_parsed ha hid hmode hagreed htransport hparsed
        exact ⟨h.1, fun _ => h.2⟩
  · have h := accepted_failure (F := F) (u := u) "credential_unavailable"
      "credential_unavailable" ha hid hmode hagreed.duration (by decide) (by decide)
      rfl
    exact ⟨h.1, fun _ => h.2⟩

theorem taken_static (ha : a ∈ registry.accounts)
    (hstatic : staticStatus a = clientStaticStatus a.cashBalanceMode) :
    Taken u registry a (emptyState registry a (staticStatus a) : Json F) := by
  refine ⟨validateResult_ok (by simp [hasExactly, resultFields, keys]) ha rfl rfl rfl ?_,
    fun h => by cases h⟩
  exact (if_pos rfl).trans (if_pos ⟨rfl, rfl, rfl, rfl, rfl, congrArg some hstatic⟩)

/-- The layers take every result of the worker. -/
theorem taken_refreshOne (hconnected : Connected registry) (ha : a ∈ registry.accounts)
    (hagreed : ∀ c, connector? a.accountId = some c → Agreed u F c x) :
    Taken u registry a (refreshOne u registry a x : Json F) := by
  unfold refreshOne
  split
  · next c hmode hc => exact taken_direct ha (connector_of_some hc) hmode (hagreed c hc)
  · next hnot =>
    refine taken_static ha ?_
    cases hmode : a.cashBalanceMode with
    | directApi =>
      obtain ⟨c, hc⟩ := Option.isSome_iff_exists.1 (hconnected a ha hmode)
      exact absurd hc (hnot c hmode)
    | _ => simp [staticStatus, clientStaticStatus, hmode]

/-! ## The response -/

theorem mapM_ok {α β γ : Type} {f : α → β} {g : β → Except Exc γ} {h : α → γ} {xs : List α}
    (hg : ∀ x ∈ xs, g (f x) = .ok (h x)) : (xs.map f).mapM g = .ok (xs.map h) := by
  induction xs with
  | nil => rfl
  | cons x xs ih =>
    rw [List.map_cons, List.mapM_cons]
    refine bind_eq_ok.2 ⟨_, hg x List.mem_cons_self, bind_eq_ok.2 ⟨_, ?_, rfl⟩⟩
    exact ih fun y hy => hg y (List.mem_cons_of_mem _ hy)

def workerResults (u : Unicode) (registry : Registry) (accountId : String)
    (fetch : Account → Fetch) : List (Json F) :=
  (registry.requested accountId).map fun a => refreshOne u registry a (fetch a)

variable {accountId : String} {fetch : Account → Fetch}

theorem requested_ids (hid : validateAccountId registry accountId = .ok ()) :
    (∀ a ∈ registry.requested accountId, a ∈ registry.accounts) ∧
    (registry.requested accountId).map Account.accountId =
      if accountId = "all" then registry.accounts.map Account.accountId else [accountId] := by
  unfold validateAccountId at hid
  unfold Registry.requested
  split_ifs at hid ⊢ with hall hshape hunknown
  · exact ⟨fun a ha => ha, rfl⟩
  · obtain ⟨a, ha⟩ := Option.ne_none_iff_exists'.1 hunknown
    have hname : a.accountId = accountId := by
      simpa using List.find?_some (p := fun a : Account => decide (a.accountId = accountId)) ha
    rw [ha]
    refine ⟨fun b hb => ?_, by simp [hname]⟩
    obtain rfl := List.mem_singleton.1 hb
    exact List.mem_of_find?_eq_some ha

theorem response_taken (hid : validateAccountId registry accountId = .ok ())
    (htaken : ∀ a ∈ registry.requested accountId,
      Taken u registry a (refreshOne u registry a (fetch a) : Json F)) :
    validateRefreshResponse u registry accountId
      (workerRefresh u registry accountId fetch : Json F) =
        .ok (workerResults u registry accountId fetch) := by
  have hobserved : (workerResults u registry accountId fetch : List (Json F)).mapM
      (validateResult u registry) = .ok ((registry.requested accountId).map Account.accountId) :=
    mapM_ok fun a ha => (htaken a ha).1
  unfold validateRefreshResponse workerRefresh response
  dsimp only
  rw [if_neg (by simp [hasExactly, keys])]
  refine (if_pos ⟨rfl, rfl⟩).trans (bind_eq_ok.2 ⟨_, hobserved, ?_⟩)
  exact if_pos (requested_ids hid).2

/-! ## The loop -/

def rowOf (x : Recording F) (r : SnapshotArgs F) : FinanceRow F :=
  ⟨x.snapshotId, x.capturedAt, r, (checkSnapshot r).toOption.getD ""⟩

/-- What the table has got after the results, the snapshots each in a transaction of its own. -/
def appended (x : ℕ → Recording F) : ℕ → List (Json F) → FinanceTable F
  | _, [] => []
  | n, result :: results =>
    if isStatic result then appended x n results
    else (x n).arrivals ++ rowOf (x n) (argsOf result) :: appended x (n + 1) results

def snapshots (results : List (Json F)) : ℕ :=
  results.countP fun result => !isStatic result

variable {r : SnapshotArgs F} {table : FinanceTable F}

theorem recordSnapshot_full {x : Recording F} (hr : checkSnapshot r = .ok text)
    (hfull : maxSnapshotsPerAccount ≤
      existingCount (table ++ x.arrivals) (text? r.providerAccountId)) : recordSnapshot x r table =
      (.error (invalid "provider finance append-only snapshot capacity is exhausted"),
        table ++ x.arrivals) := by
  simp only [recordSnapshot, hr]
  rw [if_pos hfull]

theorem recordSnapshot_room {x : Recording F} (hr : checkSnapshot r = .ok text)
    (hroom : ¬maxSnapshotsPerAccount ≤
      existingCount (table ++ x.arrivals) (text? r.providerAccountId)) (hfault : x.fault = none) :
    recordSnapshot x r table =
      (.ok (financeRow (rowOf x r)), table ++ x.arrivals ++ [rowOf x r]) := by
  have hrow : rowOf x r = ⟨x.snapshotId, x.capturedAt, r, text⟩ := by
    rw [rowOf, hr]
    rfl
  simp only [recordSnapshot, hr, hfault, hrow]
  rw [if_neg hroom]

/-- A snapshot that passes the checks is refused because its account is full, or because the
database fails, and then nothing of it is stored. -/
theorem recordSnapshot_cases {x : Recording F} (table : FinanceTable F)
    (hr : checkSnapshot r = .ok text) :
    (∃ row, recordSnapshot x r table = (.ok row, table ++ x.arrivals ++ [rowOf x r])) ∨
    ∃ e, recordSnapshot x r table = (.error e, table ++ x.arrivals) ∧
      (maxSnapshotsPerAccount ≤
        existingCount (table ++ x.arrivals) (text? r.providerAccountId) ∨ x.fault = some e) := by
  by_cases hfull : maxSnapshotsPerAccount ≤
      existingCount (table ++ x.arrivals) (text? r.providerAccountId)
  · exact Or.inr ⟨_, recordSnapshot_full hr hfull, Or.inl hfull⟩
  · cases hfault : x.fault with
    | some e =>
      refine Or.inr ⟨e, ?_, Or.inr rfl⟩
      simp only [recordSnapshot, hr, hfault]
      rw [if_neg hfull]
    | none => exact Or.inl ⟨_, recordSnapshot_room hr hfull hfault⟩

/-- How the loop can end: with every snapshot appended, or at the first snapshot that its
account or the database refuses, with exactly those in front of it appended. -/
def Ended (x : ℕ → Recording F) (n : ℕ) (results : List (Json F)) (table : FinanceTable F)
    (out : Except Exc (List (Json F)) × FinanceTable F) : Prop :=
  (∃ rows, out = (.ok rows, table ++ appended x n results)) ∨
  ∃ before result after e, results = before ++ result :: after ∧ isStatic result = false ∧
    out = (.error e, table ++ appended x n before ++ (x (n + snapshots before)).arrivals) ∧
    (maxSnapshotsPerAccount ≤ existingCount out.2 (text? (argsOf result).providerAccountId) ∨
      (x (n + snapshots before)).fault = some e)

theorem persist_cases {x : ℕ → Recording F} (n : ℕ) {results : List (Json F)}
    (table : FinanceTable F)
    (hresults : ∀ r ∈ results, isStatic r = false → ∃ text, checkSnapshot (argsOf r) = .ok text) :
    Ended x n results table (persistResults x n results table) := by
  induction results generalizing n table with
  | nil => exact Or.inl ⟨[], by simp [persistResults, appended]⟩
  | cons result results ih =>
    have hrest := fun r hr => hresults r (List.mem_cons_of_mem _ hr)
    unfold persistResults
    by_cases hstatic : isStatic result = true
    · rw [if_pos hstatic]
      rcases ih n table hrest with ⟨rows, hout⟩ |
        ⟨before, r, after, e, heq, hr, hout, hwhy⟩
      · refine Or.inl ⟨result :: rows, ?_⟩
        rw [hout]
        simp [appended, hstatic, Except.map]
      · refine Or.inr ⟨result :: before, r, after, e, by rw [heq]; rfl, hr, ?_⟩
        have hcount : snapshots (result :: before) = snapshots before := by
          simp [snapshots, hstatic]
        rw [hcount]
        refine ⟨?_, hwhy⟩
        rw [hout]
        simp [appended, hstatic, Except.map]
    · have hsnapshot : isStatic result = false := by simpa using hstatic
      rw [if_neg hstatic]
      obtain ⟨text, htext⟩ := hresults result List.mem_cons_self hsnapshot
      rcases recordSnapshot_cases (x := x n) table htext with ⟨row, hrow⟩ |
        ⟨e, herror, hwhy⟩
      · rw [hrow]
        dsimp only
        rcases ih (n + 1) (table ++ (x n).arrivals ++ [rowOf (x n) (argsOf result)])
          hrest with ⟨rows, hout⟩ | ⟨before, r, after, e, heq, hr, hout, hwhy⟩
        · refine Or.inl ⟨row :: rows, ?_⟩
          rw [hout]
          simp [appended, hstatic, Except.map]
        · refine Or.inr ⟨result :: before, r, after, e, by rw [heq]; rfl, hr, ?_⟩
          have hcount : n + snapshots (result :: before) = n + 1 + snapshots before := by
            simp [snapshots, hsnapshot]
            omega
          rw [hcount]
          refine ⟨?_, hwhy⟩
          rw [hout]
          simp [appended, hstatic, Except.map]
      · rw [herror]
        refine Or.inr ⟨[], result, results, e, rfl, hsnapshot, ?_, ?_⟩
        · simp [appended, snapshots]
        · simpa [snapshots] using hwhy

/-! ## A refresh -/

/-- A snapshot made from a response that its parser accepts passes the checks of the client and
of the database, and so does the whole response of the worker. The snapshots are then appended
one by one: all of them, or those in front of the first whose account is full or for which the
database fails. -/
theorem refresh_in_order (hconnected : Connected registry)
    (hid : validateAccountId registry accountId = .ok ())
    (hagreed : ∀ a ∈ registry.requested accountId, ∀ c, connector? a.accountId = some c →
      Agreed u F c (fetch a)) :
    (∀ a ∈ registry.requested accountId, ∀ c raw, ∀ parsed : Parsed F,
      connector? a.accountId = some c → a.cashBalanceMode = .directApi →
      (fetch a).credential = true → (fetch a).transport = .ok raw →
      c.parse u raw = .ok parsed →
        refreshOne u registry a (fetch a) = snapshot registry a (fetch a) "ok" parsed none ∧
        validateResult u registry (snapshot registry a (fetch a) "ok" parsed none) =
          .ok a.accountId ∧
        ∃ text, checkSnapshot (argsOf (snapshot registry a (fetch a) "ok" parsed none)) =
          .ok text) ∧
    validateRefreshResponse u registry accountId
      (workerRefresh u registry accountId fetch : Json F) =
        .ok (workerResults u registry accountId fetch) ∧
    ∀ (x : ℕ → Recording F) (table : FinanceTable F),
      ∃ out, Ended x 0 (workerResults u registry accountId fetch) table out ∧
        refreshProviderFinance u registry accountId
          (.ok (workerRefresh u registry accountId fetch)) x table =
            (out.1.map (response registry accountId), out.2) := by
  have hmem := (requested_ids hid).1
  have htaken : ∀ a ∈ registry.requested accountId,
      Taken u registry a (refreshOne u registry a (fetch a) : Json F) := fun a ha =>
    taken_refreshOne hconnected (hmem a ha) (hagreed a ha)
  have hresponse := response_taken hid htaken
  refine ⟨fun a ha c raw parsed hc hmode hcredential htransport hparsed => ⟨?_, ?_⟩, hresponse,
    fun x table => ⟨persistResults x 0 (workerResults u registry accountId fetch) table, ?_, ?_⟩⟩
  · simp [refreshOne, hmode, hc, refreshDirect, hcredential, htransport, hparsed]
  · exact accepted_of_parsed (hmem a ha) (connector_of_some hc) hmode (hagreed a ha c hc)
      htransport hparsed
  · refine persist_cases 0 table fun r hr hsnapshot => ?_
    obtain ⟨a, ha, rfl⟩ := List.mem_map.1 hr
    exact (htaken a ha).2 hsnapshot
  · simp only [refreshProviderFinance, hid, hresponse, Except.bind]

/-! ## A sample -/

namespace Sample

scoped instance noFractions : FloatText Unit where
  repr _ := ['0', '.', '0']
  ofText _ := ()

def unicode : Unicode :=
  ⟨id, fun _ _ => rfl⟩

/-- `catalog/provider-integrations.v1.json`. -/
def reviewed : Registry where
  revision := "provider-integrations-2026-09-05.1"
  accounts := [⟨"alibaba", .cloudBillingApi⟩, ⟨"z-ai", .consoleOnly⟩, ⟨"mistral-ai", .consoleOnly⟩,
    ⟨"deepseek", .directApi⟩, ⟨"minimax", .consoleOnly⟩, ⟨"google", .notApplicable⟩,
    ⟨"cohere", .consoleOnly⟩, ⟨"moonshot", .directApi⟩, ⟨"tencent", .unknown⟩, ⟨"xai", .adminApi⟩,
    ⟨"openai", .consoleOnly⟩, ⟨"bytedance", .cloudBillingApi⟩, ⟨"anthropic", .consoleOnly⟩,
    ⟨"nvidia", .consoleOnly⟩, ⟨"aws", .notApplicable⟩, ⟨"meta", .unknown⟩,
    ⟨"microsoft", .notApplicable⟩, ⟨"xiaomi", .consoleOnly⟩, ⟨"baidu", .unknown⟩,
    ⟨"baichuan", .consoleOnly⟩, ⟨"stepfun", .directApi⟩]
  revision_shape := by decide +kernel
  ids_nodup := by decide
  direct c := by cases c <;> decide

/-- A balance of five dollars. -/
def deepseekBody : Json Decimal :=
  .obj [("is_available", .bool true), ("balance_infos", .arr [.obj [("currency", .str "USD"),
    ("total_balance", .int 5), ("granted_balance", .int 2), ("topped_up_balance", .int 3)]])]

def moonshotBody : Json Decimal :=
  .obj [("code", .int 0), ("data", .obj [("available_balance", .int 7), ("voucher_balance", .int 3),
    ("cash_balance", .int 4)]), ("scode", .str "0x0"), ("status", .bool true)]

/-- DeepSeek and Moonshot answer, StepFun has no credential. -/
def answers (a : Account) : Fetch where
  credential := a.accountId ≠ "stepfun"
  transport := .ok (if a.accountId = "deepseek" then deepseekBody else moonshotBody)
  durationMs := 250
  stamp := ⟨"00000000-0000-4000-8000-000000000000", "2026-01-01T00:00:00+00:00",
    by decide +kernel, by decide +kernel⟩

def deepseekParsed : Parsed Unit :=
  (some true, [deepseekEntry "USD" "5" "2" "3"])

def moonshotParsed : Parsed Unit :=
  (none, [moonshotEntry "7" "4" "3"])

theorem deepseek_parsed : parseDeepseek unicode deepseekBody = .ok deepseekParsed := by
  rfl

theorem moonshot_parsed : parseMoonshot unicode moonshotBody = .ok moonshotParsed := by
  rfl

/-- A database that works, used by nobody else. -/
def quiet (_ : ℕ) : Recording Unit where
  snapshotId := "00000000-0000-4000-8000-000000000001"
  capturedAt := "2026-01-01T00:00:01+00:00"
  arrivals := []
  fault := none

theorem connected : Connected reviewed := by
  have hall : ∀ a ∈ reviewed.accounts, a.cashBalanceMode = .directApi →
      (connector? a.accountId).isSome = true := by decide
  exact fun a ha hmode => hall a ha hmode

theorem account_of_connector {a : Account} {c : Connector} (ha : a ∈ reviewed.accounts)
    (hc : connector? a.accountId = some c) : a = ⟨c.accountId, .directApi⟩ := by
  have hall : ∀ a ∈ reviewed.accounts, ∀ c ∈ connector? a.accountId,
      a = ⟨c.accountId, .directApi⟩ := by decide
  exact hall a ha c hc

theorem deepseek_fits : AmountsFit deepseekParsed.2 := by
  intro kvs hkvs k s hs
  obtain rfl := Json.obj.inj (List.mem_singleton.1 hkvs)
  simp only [List.mem_cons, Prod.mk.injEq, Json.str.injEq, List.not_mem_nil, or_false] at hs
  rcases hs with ⟨-, rfl⟩ | ⟨-, rfl⟩ | ⟨-, rfl⟩ | ⟨-, rfl⟩ <;> exact ⟨by decide, by decide⟩

theorem moonshot_fits : AmountsFit moonshotParsed.2 := by
  intro kvs hkvs k s hs
  obtain rfl := Json.obj.inj (List.mem_singleton.1 hkvs)
  simp only [List.mem_cons, Prod.mk.injEq, Json.str.injEq, List.not_mem_nil, or_false, reduceCtorEq,
    and_false, false_or] at hs
  rcases hs with ⟨-, rfl⟩ | ⟨-, rfl⟩ | ⟨-, rfl⟩ <;> exact ⟨by decide, by decide⟩

theorem agreed : ∀ a ∈ reviewed.requested "all", ∀ c, connector? a.accountId = some c →
    Agreed unicode Unit c (answers a) := by
  intro a ha c hc
  obtain rfl := account_of_connector ha hc
  refine ⟨fun raw parsed htransport hparsed => ?_, (by decide : 250 ≤ 60000)⟩
  cases c with
  | deepseek =>
    obtain rfl : deepseekBody = raw := Except.ok.inj htransport
    obtain rfl := Except.ok.inj (deepseek_parsed.symm.trans hparsed)
    exact deepseek_fits
  | moonshot =>
    obtain rfl : moonshotBody = raw := Except.ok.inj htransport
    obtain rfl := Except.ok.inj (moonshot_parsed.symm.trans hparsed)
    exact moonshot_fits
  | stepfun =>
    obtain rfl : moonshotBody = raw := Except.ok.inj htransport
    cases hparsed

theorem refresh_in_order_sample :
    validateRefreshResponse unicode reviewed "all"
      (workerRefresh unicode reviewed "all" answers : Json Unit) =
        .ok (workerResults unicode reviewed "all" answers) ∧
    ∃ out, Ended quiet 0 (workerResults unicode reviewed "all" answers) [] out ∧
      refreshProviderFinance unicode reviewed "all"
        (.ok (workerRefresh unicode reviewed "all" answers)) quiet [] =
          (out.1.map (response reviewed "all"), out.2) :=
  have h := refresh_in_order connected rfl agreed
  ⟨h.2.1, h.2.2 quiet []⟩

def deepseekResult : Json Unit :=
  snapshot reviewed ⟨"deepseek", .directApi⟩ (answers ⟨"deepseek", .directApi⟩) "ok"
    deepseekParsed none

def moonshotResult : Json Unit :=
  snapshot reviewed ⟨"moonshot", .directApi⟩ (answers ⟨"moonshot", .directApi⟩) "ok"
    moonshotParsed none

/-- A snapshot of Moonshot that was recorded before. -/
def earlier (i : ℕ) : FinanceRow Unit :=
  { rowOf (quiet 0) (argsOf moonshotResult) with
    snapshotId := "00000000-0000-4000-9000-" ++ ofChars (Calendar.digits 12 i) }

/-- A table with `n` snapshots of Moonshot. -/
def tableOf (n : ℕ) : FinanceTable Unit :=
  (List.range n).map earlier

theorem account_earlier (i : ℕ) :
    (earlier i).args.providerAccountId = (argsOf moonshotResult).providerAccountId :=
  rfl

theorem count_moonshot (n : ℕ) : existingCount (tableOf n) (some "moonshot") = n := by
  refine (List.countP_eq_length.2 fun row hrow => ?_).trans (by simp [tableOf])
  obtain ⟨i, -, rfl⟩ := List.mem_map.1 hrow
  rw [account_earlier]
  decide

theorem count_deepseek (n : ℕ) : existingCount (tableOf n) (some "deepseek") = 0 := by
  refine List.countP_eq_zero.2 fun row hrow => ?_
  obtain ⟨i, -, rfl⟩ := List.mem_map.1 hrow
  rw [account_earlier]
  decide

theorem all_taken : ∀ a ∈ reviewed.requested "all",
    Taken unicode reviewed a (refreshOne unicode reviewed a (answers a) : Json Unit) :=
  fun a ha => taken_refreshOne connected ha (agreed a ha)

theorem persist_static {x : ℕ → Recording Unit} {statics results : List (Json Unit)} {n : ℕ}
    {table : FinanceTable Unit} (h : ∀ r ∈ statics, isStatic r = true) :
    persistResults x n (statics ++ results) table =
      ((persistResults x n results table).1.map (statics ++ ·),
        (persistResults x n results table).2) := by
  induction statics with
  | nil => cases hr : (persistResults x n results table).1 <;> simp [Except.map, ← hr]
  | cons r statics ih =>
    rw [List.cons_append, persistResults, if_pos (h r (by simp)), ih fun r hr => h r (by simp [hr])]
    cases (persistResults x n results table).1 <;> rfl

/-- Where the account of Moonshot is full, the loop stops behind the snapshot of DeepSeek. -/
theorem persist_full {table : FinanceTable Unit}
    (hempty : existingCount table (some "deepseek") = 0)
    (hfull : maxSnapshotsPerAccount ≤ existingCount table (some "moonshot")) :
    persistResults quiet 0 (workerResults unicode reviewed "all" answers) table =
      (.error (invalid "provider finance append-only snapshot capacity is exhausted"),
        table ++ [rowOf (quiet 0) (argsOf deepseekResult)]) := by
  obtain ⟨text, htext⟩ : ∃ text, checkSnapshot (argsOf deepseekResult) = .ok text :=
    (all_taken ⟨"deepseek", .directApi⟩ (by decide)).2 rfl
  obtain ⟨text', htext'⟩ : ∃ text, checkSnapshot (argsOf moonshotResult) = .ok text :=
    (all_taken ⟨"moonshot", .directApi⟩ (by decide)).2 rfl
  obtain ⟨before, between, rest, hrest, hbefore, hbetween⟩ : ∃ before between rest,
      workerResults unicode reviewed "all" answers =
        before ++ deepseekResult :: (between ++ moonshotResult :: rest) ∧
      (∀ r ∈ before, isStatic r = true) ∧ ∀ r ∈ between, isStatic r = true :=
    ⟨[_, _, _], [_, _, _], _, rfl, by decide, by decide⟩
  have hroom : ¬maxSnapshotsPerAccount ≤ existingCount (table ++ (quiet 0).arrivals)
      (text? (argsOf deepseekResult).providerAccountId) := by
    rw [show (quiet 0).arrivals = [] from rfl, List.append_nil]
    exact fun h => absurd (h.trans hempty.le) (by decide)
  have hfirst := recordSnapshot_room htext hroom rfl
  rw [show (quiet 0).arrivals = [] from rfl, List.append_nil] at hfirst
  have hmore : maxSnapshotsPerAccount ≤ existingCount
      (table ++ [rowOf (quiet 0) (argsOf deepseekResult)] ++ (quiet 1).arrivals)
      (text? (argsOf moonshotResult).providerAccountId) := by
    refine hfull.trans ?_
    rw [existingCount, existingCount, List.countP_append, List.countP_append]
    exact (Nat.le_add_right _ _).trans (Nat.le_add_right _ _)
  have hsecond := recordSnapshot_full htext' hmore
  rw [show (quiet 1).arrivals = [] from rfl, List.append_nil] at hsecond
  have hnot : ∀ r ∈ [deepseekResult, moonshotResult], ¬isStatic r = true := by decide
  rw [hrest, persist_static hbefore, persistResults, if_neg (hnot _ (by simp)), hfirst]
  dsimp only
  rw [persist_static hbetween, persistResults, if_neg (hnot _ (by simp)), hsecond]
  rfl

/-- DeepSeek and Moonshot have answered, and both responses have been parsed, but the account of
Moonshot is full: the refresh fails, and the snapshot of DeepSeek stays. -/
theorem stopped_halfway :
    parseDeepseek unicode deepseekBody = .ok deepseekParsed ∧
    parseMoonshot unicode moonshotBody = .ok moonshotParsed ∧
    ∃ e, refreshProviderFinance unicode reviewed "all"
      (.ok (workerRefresh unicode reviewed "all" answers)) quiet (tableOf 50000) =
        (.error e, tableOf 50000 ++ [rowOf (quiet 0) (argsOf deepseekResult)]) := by
  have hid : validateAccountId reviewed "all" = .ok () := rfl
  have hpersist := persist_full (count_deepseek 50000) (count_moonshot 50000).ge
  refine ⟨deepseek_parsed, moonshot_parsed,
    invalid "provider finance append-only snapshot capacity is exhausted", ?_⟩
  simp only [refreshProviderFinance, hid, response_taken hid all_taken, Except.bind, hpersist]
  rfl

end Sample

end Finance

end OpsOrchestrator
