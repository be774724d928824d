import LandscapeKit.ConfigSections
import LandscapeKit.MirrorDnfRewrite
import LandscapeKit.ServiceUnits

/-!
The definitions of the managed service. Each init system has its own text around the root, and a
validator that asks what the text contains; what init starts is told by the text as a whole.
-/

namespace LandscapeKit.Service.Definition

open Text Identity
open Mirror.Dnf (unlines)

section Render

inductive Backend where
  | systemd
  | openRc
  | sysvInit
deriving DecidableEq

inductive DefinitionError where
  | unparseable
  | credentials
  | execStart
  | user
  | restart
  | memlock
  | killMode
  | wantedBy
  | notManaged
  | notRoot
deriving DecidableEq

variable (root : Text)

def program : Text := root ++ "/current/landscape-webserver".toList

/-- The program with the managed directories. -/
def managedCommand : List Text :=
  [program root, "--config-dir".toList, root ++ "/data".toList, "--web".toList,
    root ++ "/current/static".toList]

/-- What the unit has to start, as one text. -/
def expectedExec : Text :=
  program root ++ " --config-dir ".toList ++ root ++ "/data --web ".toList ++ root ++
    "/current/static".toList

def renderUnit : Text :=
  unlines
    ["[Unit]".toList,
      "Description=Landscape Router".toList,
      "After=network-online.target lkit.service".toList,
      "Wants=network-online.target lkit.service".toList,
      [],
      "[Service]".toList,
      "ExecStart=".toList ++ expectedExec root,
      "User=root".toList,
      "Restart=always".toList,
      "LimitMEMLOCK=infinity".toList,
      [],
      "[Install]".toList,
      "WantedBy=multi-user.target".toList]

/-- Quotes around the value when it has a blank or a quote; a dollar sign, a backslash or a
backquote stays as it is. -/
def shellQuote (value : Text) : Text :=
  if value.any fun c => c = ' ' || c = '"' || c = '\'' then
    '"' :: value.flatMap (fun c => if c = '"' then ['\\', '"'] else [c]) ++ ['"']
  else value

/-- The quoted root stands inside quotes, and the variables are expanded without any. -/
def renderOpenRc : Text :=
  unlines
    ["#!/sbin/openrc-run".toList,
      [],
      "name=\"Landscape Router\"".toList,
      "description=\"Landscape webserver reverse proxy\"".toList,
      [],
      "depend() \x7b".toList,
      "    need cgroups".toList,
      "    use lkit.service".toList,
      "    after lkit.service".toList,
      "\x7d".toList,
      [],
      "command=\"".toList ++ shellQuote root ++ "/current/landscape-webserver\"".toList,
      "command_args=\"--config-dir ".toList ++ shellQuote root ++ "/data --web ".toList ++
        shellQuote root ++ "/current/static\"".toList,
      "command_user=\"root\"".toList,
      "pidfile=\"/run/landscape-router.pid\"".toList,
      [],
      "start() \x7b".toList,
      "    ebegin \"Starting Landscape\"".toList,
      "    start-stop-daemon --start --make-pidfile --pidfile /run/landscape-router.pid ".toList ++
        "--background --exec $\x7bcommand\x7d -- $\x7bcommand_args\x7d".toList,
      "    eend $?".toList,
      "\x7d".toList,
      [],
      "stop() \x7b".toList,
      "    ebegin \"Stopping Landscape\"".toList,
      "    start-stop-daemon --stop --pidfile /run/landscape-router.pid".toList,
      "    eend $?".toList,
      "\x7d".toList]

def renderSysvInit : Text :=
  unlines
    ["#!/bin/sh".toList,
      "### BEGIN INIT INFO".toList,
      "# Provides:          landscape-router".toList,
      "# Required-Start:    $network".toList,
      "# Required-Stop:     $network".toList,
      "# Should-Start:      lkit".toList,
      "# Should-Stop:       lkit".toList,
      "# Default-Start:     2 3 4 5".toList,
      "# Default-Stop:      0 1 6".toList,
      "# Description:       Landscape webserver reverse proxy".toList,
      "### END INIT INFO".toList,
      [],
      "case \"$1\" in".toList,
      "  start)".toList,
      "    start-stop-daemon --start --make-pidfile --pidfile ".toList ++
        "/run/landscape-router.pid --background \\".toList,
      "      --exec ".toList ++ shellQuote root ++
        "/current/landscape-webserver -- --config-dir ".toList ++ shellQuote root ++
        "/data --web ".toList ++ shellQuote root ++ "/current/static".toList,
      "    ;;".toList,
      "  stop)".toList,
      "    start-stop-daemon --stop --pidfile /run/landscape-router.pid".toList,
      "    ;;".toList,
      "  restart)".toList,
      "    sh \"$0\" stop".toList,
      "    sh \"$0\" start".toList,
      "    ;;".toList,
      "  *)".toList,
      "    echo \"Usage: $0 \x7bstart|stop|restart\x7d\" >&2".toList,
      "    exit 1".toList,
      "    ;;".toList,
      "esac".toList]

def renderDefinition : Backend → Text
  | .systemd => renderUnit root
  | .openRc => renderOpenRc root
  | .sysvInit => renderSysvInit root

end Render

section Validate

def isCredential (value : Text) : Bool :=
  let lower := Config.Language.toAsciiLowercase value
  containsText "admin_pass".toList lower || containsText "admin_password".toList lower ||
    containsText "landscape_admin".toList lower || containsText "landscape_password".toList lower ||
    containsText "bearer ".toList lower

/-- The last value of a key counts, whichever section it stands in. -/
def lastValue (key : String) (entries : List (Text × Text)) : Option Text :=
  (entries.filter fun entry => entry.1 = key.toList).getLast?.map Prod.snd

def validateEntries (entries : List (Text × Text)) (expectedExec : Text)
    (requireMemlock requireKillModeProcess : Bool) : Except DefinitionError Unit :=
  if entries.any fun entry => isCredential entry.2 then .error .credentials
  else if lastValue "ExecStart" entries ≠ some expectedExec then .error .execStart
  else if lastValue "User" entries ≠ some "root".toList then .error .user
  else if lastValue "Restart" entries ≠ some "always".toList then .error .restart
  else if requireMemlock ∧ lastValue "LimitMEMLOCK" entries ≠ some "infinity".toList then
    .error .memlock
  else if requireKillModeProcess ∧ lastValue "KillMode" entries ≠ some "process".toList then
    .error .killMode
  else if lastValue "WantedBy" entries ≠ some "multi-user.target".toList then .error .wantedBy
  else .ok ()

def validateUnit (content root : Text) : Except DefinitionError Unit :=
  match parseUnit content with
  | none => .error .unparseable
  | some entries => validateEntries entries (expectedExec root) true false

def hasPassword (content : Text) : Bool :=
  containsText "PASSWORD".toList content || containsText "password".toList content

def validateOpenRc (content root : Text) : Except DefinitionError Unit :=
  let expectedCommand :=
    "command=\"".toList ++ shellQuote root ++ "/current/landscape-webserver\"".toList
  if !containsText expectedCommand content then .error .notManaged
  else if !containsText "command_user=\"root\"".toList content then .error .notRoot
  else if hasPassword content then .error .credentials
  else .ok ()

def validateSysvInit (content root : Text) : Except DefinitionError Unit :=
  let expected := shellQuote root ++ "/current/landscape-webserver".toList
  if !containsText expected content then .error .notManaged
  else if hasPassword content then .error .credentials
  else .ok ()

def validateDefinition (backend : Backend) (content root : Text) : Except DefinitionError Unit :=
  match backend with
  | .systemd => validateUnit content root
  | .openRc => validateOpenRc content root
  | .sysvInit => validateSysvInit content root

end Validate

section Init

def otherProgram : Text := "/usr/bin/other".toList

/-- A script that becomes another program before anything else of it is read. -/
def execScript (rest : Text) : Text :=
  unlines ["#!/bin/sh".toList, "exec ".toList ++ otherProgram] ++ rest

/-- A unit that starts another program, and keeps a value in a section of its own. -/
def otherUnit (value : Text) : Text :=
  unlines
    ["[Service]".toList,
      "ExecStart=".toList ++ otherProgram,
      "User=root".toList,
      "Restart=always".toList,
      "LimitMEMLOCK=infinity".toList,
      "[Install]".toList,
      "WantedBy=multi-user.target".toList,
      "[X-Lkit]".toList,
      "ExecStart=".toList ++ value]

/-- An init system: the commands that a definition starts. What is relied on is that the shell
runs a script line by line and `exec` ends it, and that systemd passes over a section whose name
begins with `X-`. -/
structure Init where
  starts : Backend → Text → List (List Text)
  exec_ends : ∀ backend rest, backend ≠ .systemd →
    starts backend (execScript rest) = [[otherProgram]]
  extension_ignored : ∀ value, '\n' ∉ value → starts .systemd (otherUnit value) = [[otherProgram]]

/-- The rendered definition is accepted and starts the managed command, and no definition that is
accepted starts another program. -/
structure DefinitionsRight (init : Init) (backend : Backend) (root : Text) : Prop where
  accepted : validateDefinition backend (renderDefinition root backend) root = .ok ()
  managed : init.starts backend (renderDefinition root backend) = [managedCommand root]
  only : ∀ content, validateDefinition backend content root = .ok () →
    ∀ command ∈ init.starts backend content, command.head? = some (program root)

end Init

end LandscapeKit.Service.Definition
