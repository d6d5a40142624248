import EmailServer.Smtp.Session

/-! # The configuration and the TLS policy

`ConfigLoader::validateConfig` decides which configurations the server starts
with, and `loadFromFile` hands the TLS fields of an accepted one to
`TlsEnforcement`, where the sessions look them up. Reading the fields from the
file is left out.
-/

namespace EmailServer.Core

structure ServerConfig where
  smtpPort : Int := 25
  imapPort : Int := 143
  domain : Bytes := ascii "example.com"
  logLevel : Bytes := ascii "info"
  mailRoot : Bytes := ascii "data/mail"
  usersFile : Bytes := ascii "config/users.yml"
  tlsCertFile : Bytes := []
  tlsKeyFile : Bytes := []
  tlsRequired : Bool := false
  requireStartTls : Bool := false
  minTlsVersion : Int := -1
  hasMinTlsVersion : Bool := false
  maxMessageSize : Nat := 10485760
  smtpTimeout : Int := 300
  dataTimeout : Int := 600
  enableHA : Bool := false
  redisHost : Bytes := ascii "localhost"
  redisPort : Int := 6379
  clusterId : Bytes := ascii "email-cluster"
  nodeId : Bytes := []

/-- `if (wrong) errors.push_back(error);` -/
def complain (wrong : Bool) (error : String) : List Bytes := if wrong then [ascii error] else []

def validLevels : List Bytes :=
  [ascii "debug", ascii "info", ascii "warn", ascii "warning", ascii "error"]

namespace ServerConfig

variable (cfg : ServerConfig)

def portErrors : List Bytes :=
  complain (cfg.smtpPort ≤ 0 || cfg.smtpPort > 65535) "server.smtp_port must be between 1-65535" ++
  complain (cfg.imapPort ≤ 0 || cfg.imapPort > 65535) "server.imap_port must be between 1-65535" ++
  complain (cfg.smtpPort == cfg.imapPort)
    "server.smtp_port and server.imap_port must be different"

def tlsErrors : List Bytes :=
  if cfg.tlsRequired then
    complain cfg.tlsCertFile.isEmpty "server.tls_cert is required when tls_required=true" ++
    complain cfg.tlsKeyFile.isEmpty "server.tls_key is required when tls_required=true"
  else []

def tlsVersionErrors : List Bytes :=
  if !cfg.hasMinTlsVersion then [ascii "server.min_tls_version is required"]
  else complain (cfg.minTlsVersion < 1 || cfg.minTlsVersion > 3)
    "server.min_tls_version must be 1 (TLS 1.0), 2 (TLS 1.1), or 3 (TLS 1.2+)"

def limitErrors : List Bytes :=
  complain (cfg.maxMessageSize < 1024) "smtp.max_message_size must be at least 1024 bytes" ++
  complain (cfg.maxMessageSize > 100 * 1024 * 1024) "smtp.max_message_size cannot exceed 100MB" ++
  complain (cfg.smtpTimeout < 30) "smtp.timeout must be at least 30 seconds" ++
  complain (cfg.dataTimeout < 60) "smtp.data_timeout must be at least 60 seconds"

def haErrors : List Bytes :=
  if cfg.enableHA then
    complain cfg.redisHost.isEmpty "ha.redis_host is required when ha.enabled=true" ++
    complain (cfg.redisPort ≤ 0 || cfg.redisPort > 65535) "ha.redis_port must be between 1-65535" ++
    complain cfg.clusterId.isEmpty "ha.cluster_id is required when ha.enabled=true"
  else []

def errors : List Bytes :=
  complain cfg.domain.isEmpty "server.domain is required" ++ cfg.portErrors ++ cfg.tlsErrors ++
    cfg.tlsVersionErrors ++ cfg.limitErrors ++
    complain (cfg.logLevel ∉ validLevels) "logging.level must be one of: debug, info, warn, error" ++
    cfg.haErrors

end ServerConfig

/-- Throws a runtime error that lists the errors. -/
def ConfigLoader.validateConfig (cfg : ServerConfig) : Except Bytes Unit :=
  if cfg.errors.isEmpty then .ok ()
  else .error (ascii "Invalid configuration: Configuration validation failed:\n" ++
    (cfg.errors.map fun error => ascii "  - " ++ error ++ ascii "\n").flatten)

/-! ## TLS enforcement -/

def TLS1_VERSION : Nat := 0x0301
def TLS1_1_VERSION : Nat := 0x0302

structure TlsEnforcement where
  tlsRequired : Bool := false
  requireStartTls : Bool := false
  minTlsVersion : Nat := 0
  deriving DecidableEq

namespace TlsEnforcement

def setMinTlsVersion (version : Int) (t : TlsEnforcement) : Except Bytes TlsEnforcement :=
  if version = 0 then .error (ascii "min_tls_version not configured or invalid")
  else if version = 1 then .ok { t with minTlsVersion := TLS1_VERSION }
  else if version = 2 then .ok { t with minTlsVersion := TLS1_1_VERSION }
  else if version = 3 then .ok { t with minTlsVersion := Smtp.TLS1_2_VERSION }
  else .error (ascii "server.min_tls_version must be 1 (TLS 1.0), 2 (TLS 1.1), or 3 (TLS 1.2+)")

def setTlsRequired (required : Bool) (t : TlsEnforcement) : TlsEnforcement :=
  { t with tlsRequired := required }

def setRequireStartTls (require : Bool) (t : TlsEnforcement) : TlsEnforcement :=
  { t with requireStartTls := require }

end TlsEnforcement

/-- The end of `loadFromFile`, once the fields have been read. -/
def ConfigLoader.loadFromFile (cfg : ServerConfig) (t : TlsEnforcement) :
    Except Bytes TlsEnforcement := do
  ConfigLoader.validateConfig cfg
  let t ← t.setMinTlsVersion cfg.minTlsVersion
  pure ((t.setTlsRequired cfg.tlsRequired).setRequireStartTls cfg.requireStartTls)

/-- What the sessions of a server read of its configuration and its TLS policy. -/
def sessionConfig (cfg : ServerConfig) (t : TlsEnforcement) : Smtp.Config where
  domain := cfg.domain
  maxMessageSize := cfg.maxMessageSize
  smtpTimeout := cfg.smtpTimeout.toNat
  dataTimeout := cfg.dataTimeout.toNat
  tlsRequired := t.tlsRequired
  requireStartTls := t.requireStartTls
  minTlsVersion := t.minTlsVersion

/-! ## Accepted configurations -/

@[simp] theorem complain_eq_nil {wrong : Bool} {error : String} :
    complain wrong error = [] ↔ wrong = false := by
  cases wrong <;> simp [complain]

theorem validateConfig_ok {cfg : ServerConfig} :
    ConfigLoader.validateConfig cfg = .ok () ↔ cfg.errors = [] := by
  cases errors : cfg.errors <;> simp [ConfigLoader.validateConfig, errors]

theorem accepted_version {cfg : ServerConfig} (accepted : ConfigLoader.validateConfig cfg = .ok ()) :
    1 ≤ cfg.minTlsVersion ∧ cfg.minTlsVersion ≤ 3 := by
  have none := validateConfig_ok.mp accepted
  simp only [ServerConfig.errors, ServerConfig.tlsVersionErrors, List.append_eq_nil_iff] at none
  have version := none.1.1.1.2
  split at version
  · cases version
  · simp only [complain_eq_nil, Bool.or_eq_false_iff, decide_eq_false_iff_not] at version
    omega

theorem loadFromFile_accepted {cfg : ServerConfig} (t : TlsEnforcement)
    (accepted : ConfigLoader.validateConfig cfg = .ok ()) :
    ∃ version, version ≠ 0 ∧ ConfigLoader.loadFromFile cfg t =
      .ok ⟨cfg.tlsRequired, cfg.requireStartTls, version⟩ := by
  have named := accepted_version accepted
  have cases : cfg.minTlsVersion = 1 ∨ cfg.minTlsVersion = 2 ∨ cfg.minTlsVersion = 3 := by omega
  unfold ConfigLoader.loadFromFile
  rw [accepted]
  rcases cases with version | version | version
  · exact ⟨TLS1_VERSION, by decide, by rw [version]; rfl⟩
  · exact ⟨TLS1_1_VERSION, by decide, by rw [version]; rfl⟩
  · exact ⟨Smtp.TLS1_2_VERSION, by decide, by rw [version]; rfl⟩

end EmailServer.Core
