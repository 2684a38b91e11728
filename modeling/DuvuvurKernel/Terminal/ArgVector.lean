import DuvuvurKernel.Error
import DuvuvurKernel.Terminal.Strings

/-!
# The argument vector

`MakeArgVector`: the words of a command line, in `argv` and `argbuf`. A line is its bytes before the zero byte.
-/

namespace DuvuvurKernel

/-- `isspace`. -/
def isspace (c : UInt8) : Bool := c = 32 || (9 ≤ c && c ≤ 13)

/-- The arguments so far. -/
structure ArgVector where
  /-- The index in `argbuf` of each argument. There are `argc` of them. -/
  argv : List ℕ
  /-- The filled part of `argbuf`, up to `argbuf_index`. -/
  argbuf : List UInt8
  deriving DecidableEq

namespace ArgVector

/-- `push_to_argv`. -/
def pushToArgv (argvLen argbufLen : ℕ) (args : ArgVector) (s : List UInt8) : Except Error Unit × ArgVector :=
  if args.argv.length ≥ argvLen ∨ args.argbuf.length ≥ argbufLen then (.error .full, args)
  else (.ok (), { argv := args.argv ++ [args.argbuf.length], argbuf := args.argbuf ++ s ++ [0] })

/-- The loop of `MakeArgVector` over `first_arg`, for at most `fuel` words. -/
def pushWords (argvLen argbufLen : ℕ) : ℕ → ArgVector → List UInt8 → Except Error Unit × ArgVector
  | 0, args, _ => (.ok (), args)
  | fuel + 1, args, p =>
    let p := p.dropWhile isspace
    if p = [] then (.ok (), args)
    else
      match args.pushToArgv argvLen argbufLen (p.takeWhile (¬ isspace ·)) with
      | (.error err, args) => (.error err, args)
      | (.ok (), args) => pushWords argvLen argbufLen fuel args ((p.dropWhile (¬ isspace ·)).drop 1)

end ArgVector

/-- `MakeArgVector`. A line has fewer words than bytes. -/
def makeArgVector (command : CString) (firstArg : Option CString) (argvLen argbufLen : ℕ) :
    Except Error Unit × ArgVector :=
  match ArgVector.pushToArgv argvLen argbufLen ⟨[], []⟩ command.bytes with
  | (.error err, args) => (.error err, args)
  | (.ok (), args) =>
    match firstArg with
    | none => (.ok (), args)
    | some p => args.pushWords argvLen argbufLen (p.bytes.length + 1) p.bytes

example : makeArgVector ⟨[99, 97, 116], by decide, by decide⟩
    (some ⟨[32, 97, 32, 32, 98], by decide, by decide⟩) 32 3840 =
    (.ok (), ⟨[0, 4, 6], [99, 97, 116, 0, 97, 0, 98, 0]⟩) := by decide

end DuvuvurKernel
