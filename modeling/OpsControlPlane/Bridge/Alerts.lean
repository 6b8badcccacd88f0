import OpsControlPlane.Bridge.Publishers

/-!
# Alerts

`pollAlerts` is one poll of the alert publisher over the notices that it makes of the active
alerts: a notice of an alert that is not known to be active is published, and so is the
resolution of an alert that is known to be active and is no longer there.
-/

namespace OpsBridge

open Transaction Calls

structure AlertNotice where
  (fingerprint episodeKey displayName severity project summary : String)
deriving DecidableEq

structure AlertSettings where
  alertStream : String
  alertStreamId : ℤ
  alertTopic : String
  botUserId : ℤ

def alertKey (fingerprint episodeKey : String) : String :=
  fingerprint ++ ":" ++ episodeKey

def publishFiring (settings : AlertSettings) (notice : AlertNotice) : Publisher ℤ :=
  let marker := "OPS-ALERT-V1:" ++ alertKey notice.fingerprint notice.episodeKey ++ ":firing"
  publishOnce .alertFiring (alertKey notice.fingerprint notice.episodeKey) marker
    settings.alertStream settings.alertStreamId settings.alertTopic
    ("🔴 " ++ notice.displayName ++ " (" ++ notice.severity ++ ") — " ++ notice.summary ++
      ". Projet : " ++ notice.project ++ ".\n" ++ marker) settings.botUserId

def publishResolution (settings : AlertSettings) (alert : StoredAlert) : Publisher ℤ :=
  let marker := "OPS-ALERT-V1:" ++ alertKey alert.fingerprint alert.episodeKey ++ ":resolved"
  publishOnce .alertResolved (alertKey alert.fingerprint alert.episodeKey) marker
    settings.alertStream settings.alertStreamId settings.alertTopic
    ("✅ Résolu : " ++ alert.displayName ++ " (" ++ alert.severity ++ "). Projet : " ++
      alert.project ++ ".\n" ++ marker) settings.botUserId

def resolve (settings : AlertSettings) (alert : StoredAlert) : Publisher Unit := do
  let _ ← publishResolution settings alert
  let _ : StoredAlert ← perform (.state (.saveAlert { alert with active := false }))
  return ()

def fire (settings : AlertSettings) (notice : AlertNotice) : Publisher Unit := do
  let _ ← publishFiring settings notice
  let _ : StoredAlert ← perform (.state (.saveAlert ⟨notice.fingerprint, notice.episodeKey, true,
    notice.displayName, notice.severity, notice.project⟩))
  return ()

def activeIn (stored : Option StoredAlert) (episodeKey : String) : Bool :=
  stored.any fun a => a.active ∧ a.episodeKey = episodeKey

/-- What a poll does for one notice: how many alerts it fires and resolves. -/
def handleNotice (settings : AlertSettings) (notice : AlertNotice) : Publisher (ℕ × ℕ) := do
  let stored : Option StoredAlert ← perform (.state (.getAlert notice.fingerprint))
  match stored with
  | some alert =>
    if alert.active ∧ alert.episodeKey ≠ notice.episodeKey then do
      resolve settings alert
      fire settings notice
      return (1, 1)
    else if alert.active then return (0, 0)
    else do
      fire settings notice
      return (1, 0)
  | none => do
    fire settings notice
    return (1, 0)

def handleNotices (settings : AlertSettings) : List AlertNotice → Publisher (ℕ × ℕ)
  | [] => return (0, 0)
  | notice :: notices => do
    let (fired, resolved) ← handleNotice settings notice
    let (fired', resolved') ← handleNotices settings notices
    return (fired + fired', resolved + resolved')

def resolveOthers (settings : AlertSettings) (activeKeys : List (String × String)) :
    List StoredAlert → Publisher ℕ
  | [] => return 0
  | stored :: rest =>
    if (stored.fingerprint, stored.episodeKey) ∈ activeKeys then
      resolveOthers settings activeKeys rest
    else do
      resolve settings stored
      let resolved ← resolveOthers settings activeKeys rest
      return resolved + 1

def setNotice (byFingerprint : List AlertNotice) (notice : AlertNotice) : List AlertNotice :=
  match row AlertNotice.fingerprint notice.fingerprint byFingerprint with
  | some _ => update (fun n => n.fingerprint = notice.fingerprint) (fun _ => notice) byFingerprint
  | none => byFingerprint ++ [notice]

def collect (byFingerprint : List AlertNotice) :
    List AlertNotice → Except Exc (List AlertNotice)
  | [] => .ok byFingerprint
  | notice :: notices =>
    match row AlertNotice.fingerprint notice.fingerprint byFingerprint with
    | some previous =>
      if previous.episodeKey ≠ notice.episodeKey then
        .error (.protocol "Alertmanager returned overlapping episodes for one alert")
      else collect (setNotice byFingerprint notice) notices
    | none => collect (setNotice byFingerprint notice) notices

/-- `AlertPublisher.poll_once`, on the notices of the active alerts. -/
def pollAlerts (settings : AlertSettings) (notices : List AlertNotice) : Publisher (ℕ × ℕ) := do
  let byFingerprint ← Prog.ofExcept (collect [] notices)
  let (fired, resolved) ← handleNotices settings
    (byFingerprint.insertionSort fun a b => a.fingerprint ≤ b.fingerprint)
  let stored : List StoredAlert ← perform (.state .activeAlerts)
  let resolved' ← resolveOthers settings
    (byFingerprint.map fun n => (n.fingerprint, n.episodeKey)) stored
  return (fired, resolved + resolved')

end OpsBridge
