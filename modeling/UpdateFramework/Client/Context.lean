import UpdateFramework.Common.Constants
import UpdateFramework.Libc.Text

/-!
# Client — configuration and files

`client_config_t` and the files the client works on.  Two texts of a version name two files, as
their paths do.
-/

namespace UpdateFramework

open Libc

/-- `client_config_t`: the fields the update uses. -/
structure ClientConfig where
  serverHost : Bytes
  serverPort : ℕ
  clientVersionFile : Bytes
  currentVersion : Bytes
  downloadDir : Bytes
  retryMax : ℕ
  retryBackoffMs : ℕ
  timeoutSec : ℕ
  pauseTimeoutSec : ℕ
  enableTls : Bool
  serverTlsName : Bytes
  clientId : Bytes

/-- The client `client_001`, as `config/client.conf` configures it. -/
def ClientConfig.client001 : ClientConfig where
  serverHost := ascii "127.0.0.1"
  serverPort := 5500
  clientVersionFile := ascii "./config/client_versions.txt"
  currentVersion := []
  downloadDir := ascii "./clients/client_001/downloads"
  retryMax := 5
  retryBackoffMs := 500
  timeoutSec := 30
  pauseTimeoutSec := 30
  enableTls := true
  serverTlsName := ascii "update-server"
  clientId := ascii "client_001"

/-- The files the client opens, renames or unlinks. -/
inductive Path where
  /-- `<download_dir>/app-<v>.bin` -/
  | final (v : Bytes)
  /-- the final path followed by `.part` -/
  | part (v : Bytes)
  /-- the part path followed by `.resume` -/
  | resume (v : Bytes)
  /-- `client_version_file` -/
  | table
  /-- the table followed by `.tmp` -/
  | tableTmp
  /-- the table followed by `.lock` -/
  | tableLock
  deriving DecidableEq

/-- The path of a file, before `snprintf` cuts it. -/
def Path.text (cfg : ClientConfig) : Path → Bytes
  | .final v => cfg.downloadDir ++ ascii "/app-" ++ v ++ ascii ".bin"
  | .part v => cfg.downloadDir ++ ascii "/app-" ++ v ++ ascii ".bin" ++ ascii ".part"
  | .resume v =>
    cfg.downloadDir ++ ascii "/app-" ++ v ++ ascii ".bin" ++ ascii ".part" ++ ascii ".resume"
  | .table => cfg.clientVersionFile
  | .tableTmp => cfg.clientVersionFile ++ ascii ".tmp"
  | .tableLock => cfg.clientVersionFile ++ ascii ".lock"

/-- `snprintf` into `MAX_PATH_LEN * 2` bytes keeps the whole path. -/
def Path.fits (cfg : ClientConfig) (p : Path) : Bool := (p.text cfg).length < maxPathLen * 2

end UpdateFramework
