/-!
# Primitive operations

The operations that the host supplies to programs.  They are plain names, so that procedures and
whole programs can be compared and printed; what each one does is said where programs are run.
-/

namespace Logo

/-- Operations by which a host looks at the interpreter from inside a program. -/
inductive Probe where
  /-- Reports the innermost frame, the number of frames and the exit flag. -/
  | scope
  /-- Lists its inputs. -/
  | inputs
  /-- Always fails. -/
  | fail
  /-- Asks the running body to exit. -/
  | exit
deriving DecidableEq, Repr

/-- The operations of the host. -/
inductive Primitive where
  | addAlias
  | thing
  | make
  | declare
  | declareMake
  | repetition
  | run
  | output
  | stop
  | when
  | choose
  | add
  | sub
  | mul
  | div
  | mod
  | random
  | minus
  | abs
  | equal
  | notEqual
  | less
  | greater
  | lessEqual
  | greaterEqual
  | and
  | or
  | not
  | list
  | sentence
  | first
  | last
  | butFirst
  | butLast
  | count
  | item
  | fput
  | lput
  | word
  | isEmpty
  | uppercase
  | lowercase
  | map
  | filter
  | find
  | print
  | display
  | type
  | readWord
  | readList
  | probe (what : Probe)
deriving DecidableEq, Repr

/-- A primitive as registered with an interpreter.  The handle tells apart two registrations of the
same primitive. -/
structure HostFunction where
  primitive : Primitive
  handle : Nat := 0
deriving DecidableEq, Repr

/-- Where a host function runs. -/
inductive HostKind where
  /-- In a frame of its own. -/
  | native
  /-- In the frame of its caller. -/
  | inline
deriving DecidableEq, Repr

end Logo
