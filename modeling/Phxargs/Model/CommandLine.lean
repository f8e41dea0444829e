import Phxargs.Lib.Getopt
import Phxargs.Model.Options

/-!
# `Phxargs.Model.CommandLine`: from `argv` to the options

The calls of `getopt` in `parse_options`. The build defines `_POSIX_C_SOURCE`, which selects the
`getopt` of POSIX: it stops at the first operand, so the arguments of the command are never
scanned.

`Phxargs.Model.Options` starts from the answers. Here they come from an `argv`.
-/

set_option autoImplicit false

namespace Phxargs

open Lib

/-- A character of the source as a byte. -/
def byte (c : Char) : UInt8 := UInt8.ofNat c.toNat

/-- `phxargs_opts`, behind the leading `:`. That one only selects the answer `:` for a missing
argument. -/
def PHXARGS_OPTS : CStr :=
  ['0', 'a', ':', 'd', ':', 'E', ':', 'I', ':', 'L', ':', 'n', ':', 'o', 'p', 'P', ':', 'r', 's',
    ':', 't', 'x'].map byte

/-- How `getopt` looks a letter up: `strchr` in the option string, and the byte behind it. -/
def optionTakes (optstring : CStr) (opt : UInt8) : Option Bool :=
  if opt = byte ':' then
    none
  else
    match optstring.dropWhile (· ≠ opt) with
    | [] => none
    | _ :: rest => some (rest.head? = some (byte ':'))

/-- The option string of phxargs. -/
def phxargsOptString : OptString UInt8 where
  dash := byte '-'
  takes := optionTakes PHXARGS_OPTS
  dash_none := by decide

/-- The `switch` of `parse_options`, on `opt` and `optarg`. `getopt` answers with the letters of
`phxargs_opts` only, so the `default` with its assertion is not reached. -/
def Getopt.ofAnswer : OptAnswer UInt8 → Getopt
  | .flag opt =>
      match Char.ofNat opt.toNat with
      | '0' => .opt0
      | 'o' => .opto
      | 'p' => .optp
      | 'r' => .optr
      | 't' => .optt
      | 'x' => .optx
      | c => .unknown c
  | .option opt optarg =>
      match Char.ofNat opt.toNat with
      | 'a' => .optA optarg
      | 'd' => .optD optarg
      | 'E' => .optE optarg
      | 'I' => .optI optarg
      | 'L' => .optL optarg
      | 'n' => .optn optarg
      | 'P' => .optP optarg
      | 's' => .opts optarg
      | c => .unknown c
  | .missingArgument optopt => .missingArgument (Char.ofNat optopt.toNat)
  | .unknown optopt => .unknown (Char.ofNat optopt.toNat)

/-- The answers of `getopt` over `argv`, and `optind` behind them. -/
def getoptAnswers (argv : List CStr) : List Getopt × Nat :=
  ((phxargsOptString.scanAll argv).1.map Getopt.ofAnswer, (phxargsOptString.scanAll argv).2)

/-- `options_create`, over `argv`. -/
def optionsCreateFrom (childMax : Int) (argv : List CStr) : Except Exit Options :=
  optionsCreate childMax (getoptAnswers argv).1 (getoptAnswers argv).2

end Phxargs
