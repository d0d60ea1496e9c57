/-
Names of libraries that the rules know.

A dotted name is the one that an expression has after imports are followed, so
that an alias of a function counts as the function.
-/

namespace EffectGraph.Library

/-- Methods that change the list, set, mapping or queue they are called on. -/
def mutatingMethods : List String :=
  ["append", "appendleft", "extend", "extendleft", "insert", "pop", "popleft", "popitem",
   "remove", "clear", "sort", "reverse", "fill", "rotate", "update", "setdefault", "add",
   "discard"]

/-- Objects whose mere use reaches outside of a function, with the names that reports use. -/
def globalObjects : List (String × String) :=
  [("sys", "sys"),
   ("builtins", "builtins"),
   ("__main__", "__main__"),
   ("os.environ", "os.environ"),
   ("builtins.globals", "globals"),
   ("builtins.__builtins__", "__builtins__")]

def environment : List String :=
  ["os.environ", "os.environb"]

def environmentCalls : List String :=
  ["os.getenv", "os.getenvb", "os.environ.get", "os.putenv", "os.unsetenv"]

def consoleCalls : List String :=
  ["builtins.print", "builtins.input", "pprint.pprint", "pprint.pp"]

def consoleStreams : List String :=
  ["sys.stdout", "sys.stderr", "sys.__stdout__", "sys.__stderr__"]

/-- Calls whose result differs from call to call. -/
def nondeterministicCalls : List String :=
  ["time.time", "time.time_ns", "time.monotonic", "time.monotonic_ns", "time.perf_counter",
   "time.perf_counter_ns", "time.process_time", "random.random", "random.randint",
   "random.randrange", "random.randbytes", "random.getrandbits", "random.choice",
   "random.choices", "random.sample", "random.shuffle", "random.uniform", "random.gauss",
   "random.normalvariate", "uuid.uuid1", "uuid.uuid4", "os.urandom", "secrets.token_bytes",
   "secrets.token_hex", "secrets.token_urlsafe", "secrets.choice", "secrets.randbelow",
   "secrets.randbits"]

/-- Constructors of the current time, with the types they construct. -/
def currentTimeConstructors : List (String × String) :=
  [("datetime.datetime.now", "datetime.datetime"),
   ("datetime.datetime.today", "datetime.datetime"),
   ("datetime.datetime.utcnow", "datetime.datetime"),
   ("datetime.date.today", "datetime.date")]

def gatherCalls : List String :=
  ["asyncio.gather"]

/-- Functions that call back for each item, with the place of the callback among the arguments. -/
def iterationCalls : List (String × Nat) :=
  [("builtins.map", 0),
   ("builtins.filter", 0),
   ("functools.reduce", 0)]

/-- Methods that call back for each item; the callback is their first argument. -/
def iterationMethods : List String :=
  ["map", "apply", "applymap", "filter", "for_each", "foreach"]

/-- Methods that register a handler, with its place among the arguments. -/
def listenerMethods : List (String × Nat) :=
  [("add_signal_handler", 1),
   ("add_reader", 1),
   ("add_writer", 1),
   ("call_soon", 0),
   ("call_soon_threadsafe", 0),
   ("call_later", 1),
   ("call_at", 1),
   ("add_done_callback", 0),
   ("add_event_listener", 1),
   ("addEventListener", 1),
   ("add_event_handler", 1),
   ("add_listener", 1),
   ("on", 1),
   ("connect", 0)]

/-- Functions that register a handler, with its place among the arguments. -/
def listenerCalls : List (String × Nat) :=
  [("signal.signal", 1),
   ("atexit.register", 0)]

/-- Methods that attach a handler for errors, with its place among the arguments. -/
def rejectionMethods : List (String × Nat) :=
  [("catch", 0),
   ("addErrback", 0),
   ("addCallbacks", 1),
   ("then", 1)]

/-- Methods that attach handlers to something that can be awaited, and so take care of it. -/
def chainMethods : List String :=
  ["then", "catch", "finally", "add_done_callback", "addCallback", "addErrback", "addBoth",
   "addCallbacks"]

end EffectGraph.Library
