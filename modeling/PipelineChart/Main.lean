import PipelineChart.CommandLine.Run

/-!
The program: runs on the files of the system.
-/

namespace PipelineChart

def DiskFault.ofError : IO.Error → DiskFault
  | .noFileOrDirectory _ _ _ => .notFound
  | .inappropriateType _ code details =>
      if code = 20 then .notDirectory else if code = 21 then .isDirectory else .other details
  | error => .other (toString error)

instance : Disk IO where
  isPresent path := do
    try
      let _ ← IO.FS.realPath path
      return true
    catch _ => return false
  read path := do
    try
      match String.fromUTF8? (← IO.FS.readBinFile path) with
      | some text => return .ok text
      | none => return .error .notText
    catch error => return .error (DiskFault.ofError error)
  write path text := do
    try
      IO.FS.writeFile path text
      return .ok ()
    catch error => return .error (DiskFault.ofError error)

def systemSettings : IO (Option String) := do
  match ← IO.getEnv "XDG_CONFIG_HOME" with
  | some directory =>
      if directory.startsWith "/" then return some (directory ++ "/stagegraph/config.toml")
      else home
  | none => home
where
  home : IO (Option String) := do
    return (← IO.getEnv "HOME").map (· ++ "/.config/stagegraph/config.toml")

end PipelineChart

open PipelineChart in
def main (words : List String) : IO UInt32 := do
  let outcome : Outcome ← execute (← systemSettings) words
  IO.print outcome.output
  if let some notice := outcome.notice then IO.eprintln notice
  for report in outcome.reports do
    IO.eprintln (report.severity.text ++ ": " ++ report.message)
  return outcome.status.toUInt32
