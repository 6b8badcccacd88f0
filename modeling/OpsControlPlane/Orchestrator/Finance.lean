import OpsControlPlane.Lib.AsciiJson
import OpsControlPlane.Lib.Decimals
import OpsControlPlane.Lib.Regex
import OpsControlPlane.Orchestrator.Models

/-!
# Provider finance snapshots

The worker reads the balance of an account from its provider and normalizes it
(`ProviderFinanceManager.refresh`, with a parser for each of the three providers), the client
checks what the worker answers (`validateRefreshResponse`), and the orchestrator appends the
snapshots to its table one by one (`refreshProviderFinance`). An upstream response is JSON whose
fractions are decimal numbers; in what the layers exchange, an amount is a text.
-/

namespace OpsOrchestrator

namespace Finance

open Text JsonText Decimals Regex

variable {F : Type}

/-! ## Values -/

def valueError (label : String) : Exc :=
  .other "ValueError" label

def unavailable (message : String) : Exc :=
  .other "ProviderUnavailable" message

def invalid (message : String) : Exc :=
  .other "ValidationError" message

def field (k : String) (kvs : List (String × Json F)) : Json F :=
  (kvs.lookup k).getD .null

/-- `set(value) == expected`. -/
def hasExactly (expected : List String) (kvs : List (String × Json F)) : Bool :=
  (keys kvs).all (expected.contains ·) && expected.all ((keys kvs).contains ·)

/-- `isinstance(value, str)`. -/
def text? : Json F → Option String
  | .str s => some s
  | _ => none

/-- `isinstance(value, int)` and not a `bool`. -/
def int? : Json F → Option ℤ
  | .int n => some n
  | _ => none

def isNone : Json F → Bool
  | .null => true
  | _ => false

def isEmptyList : Json F → Bool
  | .arr [] => true
  | _ => false

/-- `value is None or isinstance(value, bool)`. -/
def isOptionalBool : Json F → Bool
  | .null | .bool _ => true
  | _ => false

/-! ## Parsers -/

abbrev Parsed (F : Type) : Type :=
  Option Bool × List (Json F)

def exactKeys (expected : List String) (label : String) :
    Json F → Except Exc (List (String × Json F))
  | .obj kvs => if hasExactly expected kvs then .ok kvs
    else .error (valueError (label ++ "_fields"))
  | _ => .error (valueError (label ++ "_fields"))

/-- `Decimal(str(value))`. The text of an integer or of a decimal number reads as that number. -/
def decimalOf (u : Unicode) : Json Decimal → Option Decimal
  | .str s => ofText u s
  | .int n => some (.finite (n < 0) n.natAbs 0)
  | .float x => some x
  | _ => none

def rendered (neg : Bool) (coeff : ℕ) (exp : ℤ) : String :=
  if trimmed (fixed neg coeff exp) = [] then "0" else ofChars (trimmed (fixed neg coeff exp))

def amount (u : Unicode) (label : String) (v : Json Decimal) : Except Exc String :=
  match decimalOf u v with
  | some (.finite neg coeff exp) =>
    if (neg ∧ coeff ≠ 0) ∨ above (10 ^ 15) coeff exp then .error (valueError label)
    else if exp < -12 then .error (valueError label)
    else .ok (rendered neg coeff exp)
  | _ => .error (valueError label)

/-- The currency of a balance. A value that cannot be in a set raises a `TypeError`. -/
def deepseekCurrency (seen : List String) : Json Decimal → Except Exc String
  | .str c =>
    if c ∈ ["CNY", "USD"] ∧ c ∉ seen then .ok c else .error (valueError "deepseek_currency")
  | .arr _ | .obj _ => .error (.other "TypeError" "unhashable type")
  | _ => .error (valueError "deepseek_currency")

def deepseekBalance (u : Unicode) (seen : List String) (raw : Json Decimal) :
    Except Exc (String × Json F) := do
  let info ← exactKeys ["currency", "total_balance", "granted_balance", "topped_up_balance"]
    "deepseek_balance" raw
  let currency ← deepseekCurrency seen (field "currency" info)
  let available ← amount u "deepseek_total" (field "total_balance" info)
  let granted ← amount u "deepseek_granted" (field "granted_balance" info)
  let toppedUp ← amount u "deepseek_topped_up" (field "topped_up_balance" info)
  .ok (currency, .obj [("currency", .str currency), ("available", .str available),
    ("granted", .str granted), ("topped_up", .str toppedUp)])

def deepseekBalances (u : Unicode) : List String → List (Json Decimal) → Except Exc (List (Json F))
  | _, [] => .ok []
  | seen, raw :: infos => do
    let balance ← deepseekBalance u seen raw
    let balances ← deepseekBalances u (balance.1 :: seen) infos
    .ok (balance.2 :: balances)

def parseDeepseek (u : Unicode) (value : Json Decimal) : Except Exc (Parsed F) := do
  let root ← exactKeys ["is_available", "balance_infos"] "deepseek_root" value
  match field "is_available" root, field "balance_infos" root with
  | .bool isAvailable, .arr infos =>
    if 1 ≤ infos.length ∧ infos.length ≤ 8 then do
      let balances ← deepseekBalances u [] infos
      .ok (some isAvailable, balances)
    else .error (valueError "deepseek_envelope")
  | _, _ => .error (valueError "deepseek_envelope")

def parseMoonshot (u : Unicode) (value : Json Decimal) : Except Exc (Parsed F) := do
  let root ← exactKeys ["code", "data", "scode", "status"] "moonshot_root" value
  match field "code" root, text? (field "scode" root), field "status" root with
  | .int 0, some "0x0", .bool true => do
    let data ← exactKeys ["available_balance", "voucher_balance", "cash_balance"] "moonshot_data"
      (field "data" root)
    let available ← amount u "moonshot_available" (field "available_balance" data)
    let cash ← amount u "moonshot_cash" (field "cash_balance" data)
    let voucher ← amount u "moonshot_voucher" (field "voucher_balance" data)
    .ok (none, [.obj [("currency", .null), ("available", .str available), ("cash", .str cash),
      ("voucher", .str voucher)]])
  | _, _, _ => .error (valueError "moonshot_status")

def parseStepfun (u : Unicode) (value : Json Decimal) : Except Exc (Parsed F) := do
  let root ← exactKeys ["object", "type", "balance", "total_cash_balance", "total_voucher_balance"]
    "stepfun_root" value
  match text? (field "object" root), text? (field "type" root) with
  | some "account", some billingType =>
    if billingType ∈ ["prepaid", "postpaid"] then do
      let available ← amount u "stepfun_balance" (field "balance" root)
      let totalCash ← amount u "stepfun_cash" (field "total_cash_balance" root)
      let totalVoucher ← amount u "stepfun_voucher" (field "total_voucher_balance" root)
      .ok (none, [.obj [("currency", .null), ("available", .str available),
        ("total_cash", .str totalCash), ("total_voucher", .str totalVoucher),
        ("billing_type", .str billingType)]])
    else .error (valueError "stepfun_envelope")
  | _, _ => .error (valueError "stepfun_envelope")

inductive Connector where
  | deepseek | moonshot | stepfun
deriving DecidableEq

def Connector.accountId : Connector → String
  | deepseek => "deepseek"
  | moonshot => "moonshot"
  | stepfun => "stepfun"

def Connector.parse (u : Unicode) : Connector → Json Decimal → Except Exc (Parsed F)
  | deepseek => parseDeepseek u
  | moonshot => parseMoonshot u
  | stepfun => parseStepfun u

def connector? (accountId : String) : Option Connector :=
  [Connector.deepseek, .moonshot, .stepfun].find? fun c => c.accountId = accountId

/-! ## The registry -/

inductive AccessMode where
  | directApi | adminApi | cloudBillingApi | consoleOnly | notApplicable | unknown
deriving DecidableEq

def AccessMode.value : AccessMode → String
  | directApi => "direct_api"
  | adminApi => "admin_api"
  | cloudBillingApi => "cloud_billing_api"
  | consoleOnly => "console_only"
  | notApplicable => "not_applicable"
  | unknown => "unknown"

/-- What a finance refresh reads of `ProviderIntegration`. -/
structure Account where
  accountId : String
  cashBalanceMode : AccessMode
deriving DecidableEq

/-- `[a-z0-9][a-z0-9._-]{0,127}`. -/
def isRevision (s : String) : Bool :=
  let first := fun c : Char => c.isLower || c.isDigit
  leads first (fun c => first c || c = '.' || c = '_' || c = '-') 0 127 (toChars s)

/-- `[a-z0-9][a-z0-9-]{0,63}`. -/
def isAccountId (s : String) : Bool :=
  let first := fun c : Char => c.isLower || c.isDigit
  leads first (fun c => first c || c = '-') 0 63 (toChars s)

/-- A loaded registry whose connectors have been checked (`_validate_direct_connectors`). -/
structure Registry where
  revision : String
  accounts : List Account
  revision_shape : isRevision revision = true
  ids_nodup : (accounts.map Account.accountId).Nodup
  direct : ∀ c : Connector, ⟨c.accountId, .directApi⟩ ∈ accounts

def Registry.account? (registry : Registry) (accountId : String) : Option Account :=
  registry.accounts.find? fun a => a.accountId = accountId

def Registry.requested (registry : Registry) (accountId : String) : List Account :=
  if accountId = "all" then registry.accounts else (registry.account? accountId).toList

/-! ## The worker -/

def uuidText : List ℕ → List Char → Bool
  | [], _ => false
  | n :: ns, s =>
    let part := s.take n
    part.length = n && part.all (fun c => c.isDigit || ('a' ≤ c && c ≤ 'f')) &&
      if ns = [] then (s.drop n).isEmpty
      else (s.drop n).head? = some '-' && uuidText ns (s.drop (n + 1))

/-- `str(uuid.UUID(value)) == value`. -/
def isUuid (s : String) : Bool :=
  uuidText [8, 4, 4, 4, 12] (toChars s)

def isCapturedAt (s : String) : Bool :=
  let cs := toChars s
  let shape := "0000-00-00T00:00:00".toList
  let utc := "+00:00".toList
  (cs.take 19).length = 19 &&
    ((cs.take 19).zip shape).all (fun p => if p.2 = '0' then p.1.isDigit else p.1 = p.2) &&
    match cs.drop 19 with
    | '.' :: r =>
      let ds := r.takeWhile Char.isDigit
      decide (1 ≤ ds.length) && decide (ds.length ≤ 6) && r.dropWhile Char.isDigit = utc
    | r => r = utc

/-- What the worker stamps on a snapshot: `uuid4()` and the instant, as the host writes them. -/
structure Stamp where
  (snapshotId capturedAt : String)
  uuid : isUuid snapshotId = true
  instant : isCapturedAt capturedAt = true

inductive NetworkError where
  | authenticationRejected | rateLimited | providerServerError | providerHttpError
  | invalidContentLength | responseTooLarge | connectionFailed | invalidJson | invalidJsonRoot
deriving DecidableEq

def NetworkError.code : NetworkError → String
  | authenticationRejected => "authentication_rejected"
  | rateLimited => "rate_limited"
  | providerServerError => "provider_server_error"
  | providerHttpError => "provider_http_error"
  | invalidContentLength => "invalid_content_length"
  | responseTooLarge => "response_too_large"
  | connectionFailed => "connection_failed"
  | invalidJson => "invalid_json"
  | invalidJsonRoot => "invalid_json_root"

/-- What the worker meets when it refreshes an account. -/
structure Fetch where
  credential : Bool
  transport : Except NetworkError (Json Decimal)
  durationMs : ℕ
  stamp : Stamp

def staticStatus (a : Account) : String :=
  match a.cashBalanceMode with
  | .adminApi | .cloudBillingApi => "requires_admin_credential"
  | .consoleOnly => "console_only"
  | .notApplicable | .unknown => "unsupported"
  | .directApi => if connector? a.accountId = none then "unsupported_schema" else "never_refreshed"

def resultFields : List String :=
  ["snapshot_id", "provider_account_id", "registry_revision", "captured_at", "cash_balance_mode",
    "status", "is_available", "balances", "error_code", "duration_ms"]

def emptyState (registry : Registry) (a : Account) (status : String) : Json F :=
  .obj (resultFields.zip [.null, .str a.accountId, .str registry.revision, .null,
    .str a.cashBalanceMode.value, .str status, .null, .arr [], .null, .null])

/-- `_snapshot` without a database. -/
def snapshot (registry : Registry) (a : Account) (x : Fetch) (status : String)
    (parsed : Parsed F) (errorCode : Option String) : Json F :=
  .obj (resultFields.zip [.str x.stamp.snapshotId, .str a.accountId, .str registry.revision,
    .str x.stamp.capturedAt, .str a.cashBalanceMode.value, .str status,
    (parsed.1.map Json.bool).getD .null, .arr parsed.2, (errorCode.map Json.str).getD .null,
    .int x.durationMs])

/-- `_refresh_one_locked` behind the static statuses. -/
def refreshDirect (u : Unicode) (registry : Registry) (a : Account) (c : Connector) (x : Fetch) :
    Json F :=
  if x.credential then
    match x.transport with
    | .error e => snapshot registry a x "provider_unavailable" (none, []) (some e.code)
    | .ok raw =>
      match c.parse (F := F) u raw with
      | .error _ =>
        snapshot registry a x "unsupported_schema" (none, []) (some "response_schema_mismatch")
      | .ok parsed => snapshot registry a x "ok" parsed none
  else snapshot registry a x "credential_unavailable" (none, []) (some "credential_unavailable")

def refreshOne (u : Unicode) (registry : Registry) (a : Account) (x : Fetch) : Json F :=
  match a.cashBalanceMode, connector? a.accountId with
  | .directApi, some c => refreshDirect u registry a c x
  | _, _ => emptyState registry a (staticStatus a)

def response (registry : Registry) (accountId : String) (results : List (Json F)) : Json F :=
  .obj [("status", .str "completed"), ("registry_revision", .str registry.revision),
    ("requested_account", .str accountId), ("results", .arr results)]

def workerRefresh (u : Unicode) (registry : Registry) (accountId : String)
    (fetch : Account → Fetch) : Json F :=
  response registry accountId
    ((registry.requested accountId).map fun a => refreshOne u registry a (fetch a))

/-! ## The client -/

def checkAmount (u : Unicode) (v : Json F) : Except Exc Unit :=
  let refused : Except Exc Unit :=
    .error (unavailable "provider finance worker returned an invalid amount")
  match v with
  | .str s =>
    if amountText (fun _ => true) (toChars s) then
      match ofText u s with
      | some (.finite neg coeff exp) =>
        if (neg ∧ coeff ≠ 0) ∨ above (10 ^ 15) coeff exp then refused else .ok ()
      | _ => refused
    else refused
  | _ => refused

/-- `"provider finance worker returned invalid balances"`. -/
def invalidBalances : Exc :=
  unavailable "provider finance worker returned invalid balances"

def checkAmounts (u : Unicode) (fields : List String) (balance : List (String × Json F)) :
    Except Exc Unit :=
  fields.forM fun k => checkAmount u (field k balance)

def balanceOf (expected : List String) : Json F → Except Exc (List (String × Json F))
  | .obj kvs => if hasExactly expected kvs then .ok kvs else .error invalidBalances
  | _ => .error invalidBalances

/-- The loop over the balances of DeepSeek. -/
def checkDeepseek (u : Unicode) : List String → List (Json F) → Except Exc Unit
  | _, [] => .ok ()
  | seen, balance :: balances => do
    let kvs ← balanceOf ["currency", "available", "granted", "topped_up"] balance
    match text? (field "currency" kvs) with
    | some currency =>
      if currency ∈ ["CNY", "USD"] ∧ currency ∉ seen then do
        checkAmounts u ["available", "granted", "topped_up"] kvs
        checkDeepseek u (currency :: seen) balances
      else .error invalidBalances
    | none => .error invalidBalances

def checkMoonshot (u : Unicode) (balance : Json F) : Except Exc Unit := do
  let kvs ← balanceOf ["currency", "available", "cash", "voucher"] balance
  if isNone (field "currency" kvs) then checkAmounts u ["available", "cash", "voucher"] kvs
  else .error (unavailable "provider finance worker invented a currency")

def checkStepfun (u : Unicode) (balance : Json F) : Except Exc Unit := do
  let kvs ← balanceOf
    ["currency", "available", "total_cash", "total_voucher", "billing_type"] balance
  if isNone (field "currency" kvs) ∧
      (text? (field "billing_type" kvs) = some "prepaid" ∨
        text? (field "billing_type" kvs) = some "postpaid") then
    checkAmounts u ["available", "total_cash", "total_voucher"] kvs
  else .error invalidBalances

def validateBalances (u : Unicode) (accountId : String) : Json F → Except Exc Unit
  | .arr balances =>
    if 1 ≤ balances.length ∧ balances.length ≤ 8 then
      match connector? accountId, balances with
      | some .deepseek, _ => checkDeepseek u [] balances
      | some .moonshot, [balance] => checkMoonshot u balance
      | some .stepfun, [balance] => checkStepfun u balance
      | some _, _ => .error invalidBalances
      | none, _ =>
        .error (unavailable "provider finance worker returned an unexpected balance account")
    else .error invalidBalances
  | _ => .error invalidBalances

def clientStaticStatus : AccessMode → String
  | .adminApi | .cloudBillingApi => "requires_admin_credential"
  | .consoleOnly => "console_only"
  | .notApplicable | .unknown => "unsupported"
  | .directApi => "never_refreshed"

/-- `[a-z][a-z0-9_]{0,63}`. -/
def isErrorCode (s : String) : Bool :=
  leads Char.isLower (fun c => c.isLower || c.isDigit || c = '_') 0 63 (toChars s)

def snapshotStatuses : List String :=
  ["ok", "credential_unavailable", "provider_unavailable", "unsupported_schema"]

/-- The checks of a result without a snapshot. -/
def checkStatic (a : Account) (kvs : List (String × Json F)) : Except Exc Unit :=
  if isNone (field "captured_at" kvs) ∧ isNone (field "is_available" kvs) ∧
      isEmptyList (field "balances" kvs) ∧ isNone (field "error_code" kvs) ∧
      isNone (field "duration_ms" kvs) ∧
      text? (field "status" kvs) = some (clientStaticStatus a.cashBalanceMode) then .ok ()
  else .error (unavailable "provider finance worker static result is invalid")

/-- The checks of the fields every snapshot has. -/
def checkMetadata (kvs : List (String × Json F)) : Except Exc Unit :=
  if ¬((text? (field "snapshot_id" kvs)).any isUuid) then
    .error (unavailable "provider finance worker snapshot id is invalid")
  else if (text? (field "captured_at" kvs)).any isCapturedAt ∧
      (int? (field "duration_ms" kvs)).any (fun n => 0 ≤ n && n ≤ 60000) ∧
      (text? (field "status" kvs)).any (snapshotStatuses.contains ·) ∧
      isOptionalBool (field "is_available" kvs) then .ok ()
  else .error (unavailable "provider finance worker snapshot metadata is invalid")

def checkReport (u : Unicode) (accountId : String) (kvs : List (String × Json F)) :
    Except Exc Unit :=
  if text? (field "status" kvs) = some "ok" then
    if ¬isNone (field "error_code" kvs) then
      .error (unavailable "provider finance worker success contains an error")
    else if accountId = "deepseek" ∧ isNone (field "is_available" kvs) then
      .error (unavailable "DeepSeek availability is missing")
    else if accountId ≠ "deepseek" ∧ ¬isNone (field "is_available" kvs) then
      .error (unavailable "provider finance worker inferred availability")
    else validateBalances u accountId (field "balances" kvs)
  else if isNone (field "is_available" kvs) ∧ isEmptyList (field "balances" kvs) ∧
      (text? (field "error_code" kvs)).any isErrorCode then .ok ()
  else .error (unavailable "provider finance worker failure result is invalid")

def checkResult (u : Unicode) (a : Account) (kvs : List (String × Json F)) : Except Exc Unit :=
  if isNone (field "snapshot_id" kvs) then checkStatic a kvs
  else do
    checkMetadata kvs
    checkReport u a.accountId kvs

/-- The body of the loop of `validate_refresh_response`: the account of a valid result. -/
def validateResult (u : Unicode) (registry : Registry) : Json F → Except Exc String
  | .obj kvs =>
    if ¬hasExactly resultFields kvs then
      .error (unavailable "provider finance worker result is malformed")
    else
      match (text? (field "provider_account_id" kvs)).bind registry.account? with
      | none => .error (unavailable "provider finance worker returned an unknown account")
      | some a =>
        if text? (field "registry_revision" kvs) = some registry.revision ∧
            text? (field "cash_balance_mode" kvs) = some a.cashBalanceMode.value then do
          checkResult u a kvs
          .ok a.accountId
        else .error (unavailable "provider finance worker result contract drifted")
  | _ => .error (unavailable "provider finance worker result is malformed")

def validateRefreshResponse (u : Unicode) (registry : Registry) (requestedAccount : String) :
    Json F → Except Exc (List (Json F))
  | .obj kvs =>
    if ¬hasExactly ["status", "registry_revision", "requested_account", "results"] kvs then
      .error (unavailable "provider finance worker response is malformed")
    else
      match text? (field "status" kvs), text? (field "registry_revision" kvs),
        text? (field "requested_account" kvs), field "results" kvs with
      | some "completed", some revision, some account, .arr results =>
        if revision = registry.revision ∧ account = requestedAccount then do
          let observed ← results.mapM (validateResult u registry)
          let expected := if requestedAccount = "all" then registry.accounts.map Account.accountId
            else [requestedAccount]
          if observed = expected then .ok results
          else .error (unavailable "provider finance worker returned the wrong accounts")
        else .error (unavailable "provider finance worker response is inconsistent")
      | _, _, _, _ => .error (unavailable "provider finance worker response is inconsistent")
  | _ => .error (unavailable "provider finance worker response is malformed")

/-! ## The database -/

variable [FloatText F]

/-- The arguments of `record_provider_finance_snapshot`. -/
structure SnapshotArgs (F : Type) where
  (providerAccountId registryRevision cashBalanceMode status isAvailable balances : Json F)
  (errorCode durationMs : Json F)

def allowedFields : List String :=
  ["currency", "available", "granted", "topped_up", "cash", "voucher", "total_cash",
    "total_voucher", "billing_type"]

def isCurrency (s : String) : Bool :=
  (toChars s).length = 3 && (toChars s).all Char.isUpper

def checkField : String × Json F → Except Exc Unit
  | (k, v) =>
    if k = "currency" then
      if isNone v ∨ (text? v).any isCurrency then .ok ()
      else .error (invalid "provider finance currency is invalid")
    else if k = "billing_type" then
      if text? v = some "prepaid" ∨ text? v = some "postpaid" then .ok ()
      else .error (invalid "provider finance billing type is invalid")
    else if (text? v).any fun s => amountText (fun n => n ≤ 15) (toChars s) then .ok ()
    else .error (invalid "provider finance amount is invalid")

def checkEntry : Json F → Except Exc Unit
  | .obj kvs =>
    if (keys kvs).contains "currency" ∧ (keys kvs).contains "available" ∧
        (keys kvs).all (allowedFields.contains ·) then kvs.forM checkField
    else .error (invalid "provider finance balance entry is invalid")
  | _ => .error (invalid "provider finance balance entry is invalid")

/-- `_finance_balances_json`. The text is ASCII, so it has as many bytes as characters. -/
def financeBalancesJson : Json F → Except Exc String
  | .arr balances =>
    if 8 < balances.length then .error (invalid "provider finance balances are outside bounds")
    else do
      balances.forM checkEntry
      if 32768 < (asciiCanonical (.arr balances)).length then
        .error (invalid "provider finance balances exceed storage bounds")
      else .ok (asciiCanonical (.arr balances))
  | _ => .error (invalid "provider finance balances are outside bounds")

/-- The checks of `record_provider_finance_snapshot` on its arguments: the text of the
balances. -/
def checkSnapshot (r : SnapshotArgs F) : Except Exc String :=
  if ¬(text? r.providerAccountId).any isAccountId then
    .error (invalid "provider finance account id is invalid")
  else if ¬(text? r.registryRevision).any isRevision then
    .error (invalid "provider finance registry revision is invalid")
  else if text? r.cashBalanceMode ≠ some "direct_api" then
    .error (invalid "only direct cash-balance snapshots are persisted")
  else if ¬(text? r.status).any (snapshotStatuses.contains ·) then
    .error (invalid "provider finance snapshot status is invalid")
  else if ¬isOptionalBool r.isAvailable then
    .error (invalid "provider finance availability is invalid")
  else if ¬(int? r.durationMs).any (fun n => 0 ≤ n && n ≤ 60000) then
    .error (invalid "provider finance duration is invalid")
  else if ¬(isNone r.errorCode ∨ (text? r.errorCode).any isErrorCode) then
    .error (invalid "provider finance error code is invalid")
  else do
    let balancesJson ← financeBalancesJson r.balances
    if text? r.status = some "ok" then
      if ¬isNone r.errorCode ∨ balancesJson = "[]" then
        .error (invalid "successful provider finance snapshot is incomplete")
      else .ok balancesJson
    else if isNone r.errorCode ∨ ¬isNone r.isAvailable ∨ balancesJson ≠ "[]" then
      .error (invalid "failed provider finance snapshot contains balance data")
    else .ok balancesJson

/-- A row of `provider_finance_snapshots`. -/
structure FinanceRow (F : Type) where
  (snapshotId capturedAt : String)
  args : SnapshotArgs F
  balancesJson : String

/-- `provider_finance_snapshots`. -/
abbrev FinanceTable (F : Type) : Type :=
  List (FinanceRow F)

def maxSnapshotsPerAccount : ℕ :=
  50000

def existingCount (table : FinanceTable F) (accountId : Option String) : ℕ :=
  table.countP fun row => text? row.args.providerAccountId = accountId

def financeRow (row : FinanceRow F) : Json F :=
  .obj (resultFields.zip [.str row.snapshotId,
    row.args.providerAccountId, row.args.registryRevision,
    .str row.capturedAt, row.args.cashBalanceMode, row.args.status, row.args.isAvailable,
    (loads row.balancesJson).getD .null, row.args.errorCode, row.args.durationMs])

/-- What a call of `record_provider_finance_snapshot` meets. -/
structure Recording (F : Type) where
  (snapshotId capturedAt : String)
  /-- What other calls append before the transaction. -/
  arrivals : FinanceTable F
  /-- What the database raises. The transaction is rolled back. -/
  fault : Option Exc

def recordSnapshot (x : Recording F) (r : SnapshotArgs F) (table : FinanceTable F) :
    Except Exc (Json F) × FinanceTable F :=
  let table := table ++ x.arrivals
  match checkSnapshot r with
  | .error e => (.error e, table)
  | .ok balancesJson =>
    if maxSnapshotsPerAccount ≤ existingCount table (text? r.providerAccountId) then
      (.error (invalid "provider finance append-only snapshot capacity is exhausted"), table)
    else
      match x.fault with
      | some e => (.error e, table)
      | none =>
        let row : FinanceRow F := ⟨x.snapshotId, x.capturedAt, r, balancesJson⟩
        (.ok (financeRow row), table ++ [row])

/-! ## The service -/

def pairs : Json F → List (String × Json F)
  | .obj kvs => kvs
  | _ => []

def argsOf (result : Json F) : SnapshotArgs F :=
  let get := fun k => field k (pairs result)
  { providerAccountId := get "provider_account_id"
    registryRevision := get "registry_revision"
    cashBalanceMode := get "cash_balance_mode"
    status := get "status"
    isAvailable := get "is_available"
    balances := get "balances"
    errorCode := get "error_code"
    durationMs := get "duration_ms" }

def isStatic (result : Json F) : Bool :=
  isNone (field "snapshot_id" (pairs result))

/-- The loop of `refresh_provider_finance`, from its `n`-th recording on. -/
def persistResults (x : ℕ → Recording F) :
    ℕ → List (Json F) → FinanceTable F → Except Exc (List (Json F)) × FinanceTable F
  | _, [], table => (.ok [], table)
  | n, result :: results, table =>
    if isStatic result then
      let rest := persistResults x n results table
      (rest.1.map (result :: ·), rest.2)
    else
      match recordSnapshot (x n) (argsOf result) table with
      | (.error e, table) => (.error e, table)
      | (.ok row, table) =>
        let rest := persistResults x (n + 1) results table
        (rest.1.map (row :: ·), rest.2)

def validateAccountId (registry : Registry) (accountId : String) : Except Exc Unit :=
  if accountId = "all" then .ok ()
  else if ¬isAccountId accountId then .error (invalid "provider finance account is invalid")
  else if registry.account? accountId = none then
    .error (invalid "provider finance account is unknown")
  else .ok ()

/-- `refresh_provider_finance` for an account of `infra-shared`. `answer` is what the worker's
socket delivers. -/
def refreshProviderFinance (u : Unicode) (registry : Registry) (accountId : String)
    (answer : Except Exc (Json F)) (x : ℕ → Recording F) (table : FinanceTable F) :
    Except Exc (Json F) × FinanceTable F :=
  match (validateAccountId registry accountId).bind fun _ =>
    answer.bind (validateRefreshResponse u registry accountId) with
  | .error e => (.error e, table)
  | .ok results =>
    let persisted := persistResults x 0 results table
    (persisted.1.map (response registry accountId), persisted.2)

end Finance

end OpsOrchestrator
