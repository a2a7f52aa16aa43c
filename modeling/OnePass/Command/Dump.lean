import OnePass.Artifact.Exchange
import OnePass.Artifact.Listing
import OnePass.Command.Basic

/-!
# Dumping code

An expression is compiled for any architecture and written out, as a listing or for exchange.
-/

set_option autoImplicit false

namespace OnePass.Dump

def flagSet (arch : Arch) : FlagSet where
  command := utf8 "dump"
  flags :=
    [⟨utf8 "arch", .text arch.shortName, utf8 "target architecture (amd64, arm64)"⟩,
      ⟨utf8 "format", .text [],
        utf8 "output format: hex or cbor (default hex, or cbor with -out)"⟩,
      ⟨utf8 "out", .text [],
        utf8 "write a CBOR artifact to this file instead of a hex listing"⟩]

inductive Format where
  | listing
  | exchange
  deriving DecidableEq, Repr

/-- The format that a name stands for; without a name, files are for exchange. -/
def Format.ofName? (name : Text) (toFile : Bool) : Option Format :=
  if name = [] then some (if toFile then .exchange else .listing)
  else if name = utf8 "hex" then some .listing
  else if name = utf8 "cbor" then some .exchange
  else none

def Format.write (f : Format) (a : Artifact) : Bytes :=
  match f with
  | .listing => a.listing
  | .exchange => a.encode

def deliver (verbose : Bool) (out : Text) (content : Bytes) : Output × Ending :=
  if out = [] then (Output.results content, .done)
  else
    let size := Text.decimal content.length
    let note := utf8 "wrote " ++ size ++ utf8 " bytes to " ++ out ++ utf8 "\n"
    ([], .save out content (if verbose then Output.messages note else []))

def compile (c : Context) (s : Settings) (format out source : Text) : Output × Ending :=
  let b := Artifact.compile s.arch (c.host.artifactSymbols s.arch) s.sizes source s.verbose
  let trace := Output.traces b.trace.text
  match b.outcome with
  | .error e => (trace, .failed (.build e))
  | .ok a =>
    match Format.ofName? format (out ≠ []) with
    | none => (trace, .failed (.unknownFormat format))
    | some f =>
      let (o, ending) := deliver s.verbose out (f.write a)
      (trace ++ o, ending)

def run (c : Context) (arguments : List Text) : Output × Ending :=
  let fs := flagSet c.settings.arch
  match fs.parse arguments with
  | .error fault => (Output.messages (fs.complaint fault), .failed (.flags fault))
  | .ok p =>
    if p.rest = [] then ([], .failed .noExpressionToDump)
    else
      let arch := (p.text? (utf8 "arch")).getD c.settings.arch.shortName
      match c.settings.setArch arch with
      | .error fault => ([], .failed (.settings fault))
      | .ok s =>
        compile c s ((p.text? (utf8 "format")).getD []) ((p.text? (utf8 "out")).getD [])
          (Text.join (utf8 " ") p.rest)

end OnePass.Dump
