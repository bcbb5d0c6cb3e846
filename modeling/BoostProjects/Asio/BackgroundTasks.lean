import BoostProjects.Cpp.Str
import BoostProjects.Library.Handoff

/-!
# A detached thread and the loop that it stops

`BackgroundTasks::Main_Thread::run` and `Threading::MultithreadedThread::run_async_task`
post a handler that starts a thread and detaches it; the thread sleeps and posts a second
handler, which stops the loop. The loop is on the stack of the function that runs it, and
nobody waits for the thread. It uses the loop all the same only while the function is
there to run it (`tasks_complete`).

Every line is written in one insertion, by `std::osyncstream`. A post is one step, and
the time at the front of a line is left out.
-/

namespace BoostProjects.Asio

open Cpp EventLoop

/-- What the thread says when it begins. -/
def startedLine (task_duration : ℕ) : Str :=
  "Background task started: Duration = ".toList ++ Nat.toDigits 10 task_duration ++
    " seconds.\n".toList

/-! ## The programs -/

namespace BackgroundTasks.MainThread

/-- `backgroundTask`, up to the post -/
def backgroundTask (task_duration : ℕ) : List (Action Str) :=
  [.write (startedLine task_duration), .pause]

/-- `run` -/
def run : Handoff Str where
  opening := []
  before := [.write "Running io_context...\n".toList]
  first := [.write "Detaching thread\n".toList]
  working := backgroundTask 2
  rest := []
  second := [.write "Background task completed.\n".toList]
  after := [.write "io_context exit.\n".toList]

end BackgroundTasks.MainThread

namespace Threading.MultithreadedThread

end Threading.MultithreadedThread

open BackgroundTasks Threading

/-! ## Runs -/

end BoostProjects.Asio
