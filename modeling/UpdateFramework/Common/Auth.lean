import UpdateFramework.Common.Constants
import UpdateFramework.Libc.Lines

/-!
# Common — the client registry

`auth.c`: which client ids the registry file enables.  A line is what `fgets` stores in 256 bytes,
as a C string.  Anything the function cannot make sense of closes the whole registry.
-/

namespace UpdateFramework

open Libc

/-- `trim_text`: `auth.c` and `downloader.c` have the same one. -/
def trimText (s : Bytes) : Bytes := strip (cutLine s)

/-- `auth_client_status_t` -/
inductive AuthClientStatus where
  | ok | notFound | disabled | invalidRegistry
  deriving DecidableEq

/-- `valid_registry_state`: whether a row is enabled, if its state is a known one. -/
def validRegistryState (state : Option Bytes) : Option Bool :=
  let s := state.getD []
  if s = [] ∨ strcaseeq s (ascii "enabled") ∨ strcaseeq s (ascii "allow") ∨ s = ascii "1" then
    some true
  else if strcaseeq s (ascii "disabled") ∨ strcaseeq s (ascii "deny") ∨ s = ascii "0" then
    some false
  else none

/-- A row around its first `:`, or its first `=` when it has no `:`. -/
def splitRegistryRow (line : Bytes) : Bytes × Option Bytes :=
  if 58 ∈ line then
    (line.takeWhile (· ≠ 58), some (trimText (line.dropWhile (· ≠ 58)).tail))
  else if 61 ∈ line then
    (line.takeWhile (· ≠ 61), some (trimText (line.dropWhile (· ≠ 61)).tail))
  else (line, none)

/-- A round of the loop of `auth_client_status`: the ids seen and the result so far; `none` where
it returns `AUTH_CLIENT_INVALID_REGISTRY`. -/
def registryRound (clientId : Bytes) (st : List Bytes × AuthClientStatus) (l : Bytes × Bool) :
    Option (List Bytes × AuthClientStatus) :=
  if 10 ∉ cstr l.1 ∧ l.2 = false then none
  else
    let line := trimText (cstr l.1)
    if line = [] ∨ line.head? = some 35 then some st
    else
      let (left, state) := splitRegistryRow line
      let id := trimText left
      if id = [] ∨ id.length ≥ maxIdLen then none
      else if id ∈ st.1 then none
      else if st.1.length ≥ 512 then none
      else
        match validRegistryState state with
        | none => none
        | some enabled =>
          some (st.1 ++ [id],
            if id = clientId then if enabled then .ok else .disabled else st.2)

/-- `auth_client_status`, for a registry file with this content, or none that can be opened. -/
def authClientStatus (registry : Option Bytes) (clientId : Bytes) : AuthClientStatus :=
  if clientId = [] then .invalidRegistry
  else
    match registry with
    | none => .invalidRegistry
    | some content =>
      match (textLines 254 content).foldlM (registryRound clientId) ([], .notFound) with
      | none => .invalidRegistry
      | some st => st.2

/-- `auth_client_registered` -/
def authClientRegistered (registry : Option Bytes) (clientId : Bytes) : Bool :=
  authClientStatus registry clientId = .ok

end UpdateFramework
