import CrossBuild.Calendar.Stamp
import CrossBuild.Handoff.Download
import CrossBuild.Handoff.Upload
import CrossBuild.Json.Basic

/-!
Reports of the handoff as JSON.
-/

namespace CrossBuild

def DownloadReport.toJson (r : DownloadReport) : Json :=
  .object [("bundles", .ofTexts r.bundles), ("files", .int r.files)]

def UploadReport.toJson (r : UploadReport) : Json :=
  .object [
    ("key", .text r.key),
    ("files", .int r.files),
    ("bytes", .int r.bytes),
    ("digest", .text r.digest),
    ("expires_at", .ofText? (r.expiresAt.map (·.text)))]

end CrossBuild
