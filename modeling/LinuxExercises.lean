import LinuxExercises.Dictionary.Agreement
import LinuxExercises.Dictionary.DatagramProtocol
import LinuxExercises.Dictionary.Conversation
import LinuxExercises.Dictionary.Dialogue
import LinuxExercises.Dictionary.StreamServer
import LinuxExercises.Dictionary.FieldDiscipline
import LinuxExercises.Shell.Foreground
import LinuxExercises.SharedMemory.Transfer
import LinuxExercises.SharedMemory.Readers
import LinuxExercises.SharedMemory.Ending
import LinuxExercises.FileServer.Delivery
import LinuxExercises.FileServer.Waiting
import LinuxExercises.FifoServer.Nonblock
import LinuxExercises.FifoServer.Liveness
import LinuxExercises.FifoServer.Unanswered
import LinuxExercises.FifoServer.Ranges
import LinuxExercises.MessageQueue.Answers
import LinuxExercises.MessageQueue.Deadlock
import LinuxExercises.FileLog.Coverage
import LinuxExercises.FileLog.WatchTable
import LinuxExercises.Shell.Parse
import LinuxExercises.Shell.FailedRedirection
import LinuxExercises.Shell.Reaping
import LinuxExercises.FileTools.Tail
import LinuxExercises.Popen.Starvation
import LinuxExercises.TwoPipe.Echo
import LinuxExercises.Shell.Consumers
import LinuxExercises.ProcessTree.Draw
import LinuxExercises.ProcessTree.Link
import LinuxExercises.ProcessTree.ReadBack
import LinuxExercises.ProcScan.OpenFiles
import LinuxExercises.ProcScan.Scan
import LinuxExercises.ProcScan.Drawing
import LinuxExercises.FileLog.Running
import LinuxExercises.Dictionary.HostileRequest
import LinuxExercises.FileTools.MappedCopy
import LinuxExercises.FileTools.Tee
import LinuxExercises.Shell.Background
import LinuxExercises.Shell.PipePresent
import LinuxExercises.Shell.Builtin
import LinuxExercises.Shell.Prompt
import LinuxExercises.Popen.CommandVector
import LinuxExercises.MessageBuffer.Accesses
import LinuxExercises.PingPong.Rounds
import LinuxExercises.Shell.Streams
import LinuxExercises.Shell.Memory
import LinuxExercises.Shell.Output
import LinuxExercises.SignalFunctions.Emulation
