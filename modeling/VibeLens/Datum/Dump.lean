import VibeLens.Settings.Basic
import VibeLens.Workspace.Index

set_option autoImplicit false

/-!
Records as data again: every field under the key that it is read from, whether it was given or had
been left to its default.
-/

namespace VibeLens

def Datum.ofOption (text : Option String) : Datum := (text.map Datum.str).getD .null

def Position.toDatum (p : Position) : Datum := .ofJson p.toJson

def Symbol.toDatum (s : Symbol) : Datum := .ofJson s.toJson

def Diagnostic.toDatum (d : Diagnostic) : Datum :=
  .table [("line", .int d.line), ("column", .int d.column), ("message", .str d.message),
    ("severity", .str Diagnostic.severity)]

namespace Assist

def Builtin.toDatum (b : Builtin) : Datum :=
  .table [("signature", .str b.signature), ("description", .str b.description),
    ("method_style", .ofOption b.methodStyle)]

def Completion.toDatum (c : Completion) : Datum :=
  .table [("label", .str c.label), ("kind", .str c.kind.label), ("detail", .str c.detail),
    ("documentation", .ofOption c.documentation)]

def Hover.toDatum (h : Hover) : Datum :=
  .table [("contents", .str h.contents), ("line", .int h.line), ("start_column", .int h.startColumn),
    ("end_column", .int h.endColumn)]

end Assist

def Checking.toDatum (c : Checking) : Datum :=
  .table [("enabled", .bool c.enabled), ("timeout_seconds", .float c.timeout),
    ("max_output_bytes", .int c.outputLimit), ("run_subcommand", .bool c.runSubcommand)]

def Settings.toDatum (s : Settings) : Datum :=
  .table [("executable_path", .str s.executable), ("lsp_path", .str s.server),
    ("output_dir", .str s.outputDir), ("include", .list (s.includes.map .str)),
    ("exclude", .list (s.excludes.map .str)), ("diagnostics", s.checking.toDatum)]

def OutlineRecord.toDatum (r : OutlineRecord) : Datum := .ofJson r.toJson

end VibeLens
