import Mathlib.Logic.Function.Basic
import EmailServer.Library.Bytes

/-! # The distributed auth manager

`DistributedAuthManager` stands in for a Redis cluster. Its `userCache_` is at
once the user table the cluster would keep and a local cache whose entries
`cleanupExpiredCache` removes; sessions are kept in `sessionCache_` and, for
quick validation, in the same cache under a key of their own.

A call reads its clocks once. Broadcasts only print and are left out.
-/

namespace EmailServer.Auth

/-- The steady clock in nanoseconds and `std::time` in seconds. -/
structure Clock where
  steady : Int
  wall : Int
  deriving DecidableEq

/-- `std::chrono::seconds` on the steady clock. -/
def seconds (n : Int) : Int := n * 1000000000

/-- `std::chrono::hours` on the steady clock. -/
def hours (n : Int) : Int := seconds (n * 3600)

/-- `SESSION_TIMEOUT.count()` of a timeout of 24 `std::chrono::hours`. -/
def SESSION_TIMEOUT_COUNT : Int := 24

/-- The default `ttl` of `updateLocalCache`, in seconds. -/
def CACHE_TTL : Int := 300

structure DistributedAuthManager where
  clusterId : Bytes
  healthy : Bool
  userCache : Bytes → Option Bytes
  /-- The value of a session and the time it expires. -/
  sessionCache : Bytes → Option (Bytes × Int)
  cacheExpiry : Bytes → Option Int

namespace DistributedAuthManager

/-- After `initialize`. -/
def initialized (clusterId : Bytes) : DistributedAuthManager where
  clusterId := clusterId
  healthy := true
  userCache _ := none
  sessionCache _ := none
  cacheExpiry _ := none

/-! ## Keys -/

section Keys

variable (s : DistributedAuthManager)

def clusterKey (suffix : Bytes) : Bytes :=
  ascii "emailserver:" ++ s.clusterId ++ ascii ":" ++ suffix

def userKey (username : Bytes) : Bytes := s.clusterKey (ascii "user:" ++ username)
def sessionKey (sessionId : Bytes) : Bytes := s.clusterKey (ascii "session:" ++ sessionId)

end Keys

/-! ## The local cache -/

def updateLocalCache (now : Int) (key value : Bytes) (ttl : Int) (s : DistributedAuthManager) :
    DistributedAuthManager :=
  { s with
    userCache := Function.update s.userCache key (some value)
    cacheExpiry := Function.update s.cacheExpiry key (some (now + seconds ttl)) }

def getFromLocalCache (now : Int) (key : Bytes) (s : DistributedAuthManager) : Bytes :=
  match s.userCache key with
  | none => []
  | some value =>
      match s.cacheExpiry key with
      | none => value
      | some expiry => if now > expiry then [] else value

def invalidateLocalCache (key : Bytes) (s : DistributedAuthManager) : DistributedAuthManager :=
  { s with
    userCache := Function.update s.userCache key none
    cacheExpiry := Function.update s.cacheExpiry key none }

/-- Whether the second loop of the sweep erases the key. -/
def expired (now : Int) (key : Bytes) (s : DistributedAuthManager) : Bool :=
  match s.cacheExpiry key with
  | none => false
  | some expiry => decide (now > expiry)

/-- The loops look at every entry of `sessionCache_` and of `cacheExpiry_`. -/
def cleanupExpiredCache (now : Int) (s : DistributedAuthManager) : DistributedAuthManager :=
  { s with
    sessionCache := fun key => (s.sessionCache key).filter fun kept => !decide (now > kept.2)
    userCache := fun key => if s.expired now key then none else s.userCache key
    cacheExpiry := fun key => if s.expired now key then none else s.cacheExpiry key }

/-! ## Users -/

/-- Always succeeds. -/
def storeUserInRedis (username hashedPassword : Bytes) (s : DistributedAuthManager) :
    DistributedAuthManager :=
  { s with userCache := Function.update s.userCache (s.userKey username) (some hashedPassword) }

def getUserFromRedis (username : Bytes) (s : DistributedAuthManager) : Bytes :=
  (s.userCache (s.userKey username)).getD []

def deleteUserFromRedis (username : Bytes) (s : DistributedAuthManager) :
    Bool × DistributedAuthManager :=
  ((s.userCache (s.userKey username)).isSome,
    { s with userCache := Function.update s.userCache (s.userKey username) none })

def addUser (now : Int) (username hashedPassword : Bytes) (s : DistributedAuthManager) :
    Bool × DistributedAuthManager :=
  if !s.healthy ∨ username = [] then (false, s)
  else
    let s := s.storeUserInRedis username hashedPassword
    (true, s.updateLocalCache now (s.userKey username) hashedPassword CACHE_TTL)

/-- The body of `addUser`, with another broadcast. -/
def updateUserPassword (now : Int) (username newHashedPassword : Bytes)
    (s : DistributedAuthManager) : Bool × DistributedAuthManager :=
  addUser now username newHashedPassword s

def removeUser (username : Bytes) (s : DistributedAuthManager) : Bool × DistributedAuthManager :=
  if !s.healthy ∨ username = [] then (false, s)
  else
    let erased := s.deleteUserFromRedis username
    if erased.1 then (true, erased.2.invalidateLocalCache (s.userKey username))
    else (false, erased.2)

/-- SHA-256, in hexadecimal. -/
def hashPassword (sha256 : Bytes → Vector UInt8 32) (password : Bytes) : Bytes :=
  (sha256 password).toList.flatMap hexByte

def verifyPassword (sha256 : Bytes → Vector UInt8 32) (password hash : Bytes) : Bool :=
  hashPassword sha256 password == hash

def validate (sha256 : Bytes → Vector UInt8 32) (user pass : Bytes) (s : DistributedAuthManager) :
    Bool :=
  if !s.healthy then false
  else
    let storedHash := s.getUserFromRedis user
    if storedHash = [] then false else verifyPassword sha256 pass storedHash

/-! ## Sessions -/

/-- The digits are drawn at random. -/
def generateSessionId (digits : Vector (Fin 16) 32) : Bytes :=
  digits.toList.map fun digit => hexDigit digit.val

/-- Always succeeds. -/
def storeSessionInRedis (clock : Clock) (sessionId username clientInfo : Bytes) (expiry : Int)
    (s : DistributedAuthManager) : DistributedAuthManager :=
  let value := username ++ ascii ":" ++ clientInfo
  { s with
    sessionCache := Function.update s.sessionCache (s.sessionKey sessionId)
      (some (value, clock.steady + seconds (expiry - clock.wall))) }

/-- A pair of empty strings when there is no live session. -/
def getSessionFromRedis (now : Int) (sessionId : Bytes) (s : DistributedAuthManager) :
    Bytes × Bytes :=
  match s.sessionCache (s.sessionKey sessionId) with
  | none => ([], [])
  | some (value, expiry) => if now > expiry then ([], []) else (Bytes.cut Bytes.colon value).getD ([], [])

def deleteSessionFromRedis (sessionId : Bytes) (s : DistributedAuthManager) :
    DistributedAuthManager :=
  { s with sessionCache := Function.update s.sessionCache (s.sessionKey sessionId) none }

/-- Returns the empty string when no session is created. -/
def createSession (clock : Clock) (username clientInfo : Bytes) (digits : Vector (Fin 16) 32)
    (s : DistributedAuthManager) : Bytes × DistributedAuthManager :=
  if !s.healthy ∨ username = [] then ([], s)
  else
    let sessionId := generateSessionId digits
    let expiry := clock.wall + SESSION_TIMEOUT_COUNT
    let s := s.storeSessionInRedis clock sessionId username clientInfo expiry
    (sessionId, s.updateLocalCache clock.steady (s.sessionKey sessionId)
      (username ++ ascii ":" ++ clientInfo) (expiry - clock.wall))

/-- The second half of `validateSession`, which asks the cluster. -/
def validateInRedis (now : Int) (sessionId : Bytes) (s : DistributedAuthManager) :
    Option Bytes × DistributedAuthManager :=
  let found := s.getSessionFromRedis now sessionId
  if found.1 = [] then (none, s)
  else
    (some found.1,
      s.updateLocalCache now (s.sessionKey sessionId) (found.1 ++ ascii ":" ++ found.2) CACHE_TTL)

/-- The name it sets when it returns true. -/
def validateSession (now : Int) (sessionId : Bytes) (s : DistributedAuthManager) :
    Option Bytes × DistributedAuthManager :=
  if !s.healthy ∨ sessionId = [] then (none, s)
  else
    let cached := s.getFromLocalCache now (s.sessionKey sessionId)
    if cached = [] then s.validateInRedis now sessionId
    else
      match Bytes.cut Bytes.colon cached with
      | some (username, _) => (some username, s)
      | none => s.validateInRedis now sessionId

def invalidateSession (sessionId : Bytes) (s : DistributedAuthManager) : DistributedAuthManager :=
  if !s.healthy ∨ sessionId = [] then s
  else (s.deleteSessionFromRedis sessionId).invalidateLocalCache (s.sessionKey sessionId)

/-! ## Calls -/

/-- The calls on an initialized manager. A session is created with the digits
    drawn for its id. -/
inductive Call where
  | addUser (username hashedPassword : Bytes)
  | updateUserPassword (username newHashedPassword : Bytes)
  | removeUser (username : Bytes)
  | createSession (username clientInfo : Bytes) (digits : Vector (Fin 16) 32)
  | validateSession (sessionId : Bytes)
  | invalidateSession (sessionId : Bytes)
  | cleanupExpiredCache
  deriving DecidableEq

inductive Reply where
  | done (ok : Bool)
  | session (sessionId : Bytes)
  | valid (username : Option Bytes)
  | nothing
  deriving DecidableEq

def perform (clock : Clock) (s : DistributedAuthManager) : Call → Reply × DistributedAuthManager
  | .addUser username hashedPassword =>
      (s.addUser clock.steady username hashedPassword).map .done id
  | .updateUserPassword username newHashedPassword =>
      (s.updateUserPassword clock.steady username newHashedPassword).map .done id
  | .removeUser username => (s.removeUser username).map .done id
  | .createSession username clientInfo digits =>
      (s.createSession clock username clientInfo digits).map .session id
  | .validateSession sessionId => (s.validateSession clock.steady sessionId).map .valid id
  | .invalidateSession sessionId => (.nothing, s.invalidateSession sessionId)
  | .cleanupExpiredCache => (.nothing, s.cleanupExpiredCache clock.steady)

end DistributedAuthManager

end EmailServer.Auth
