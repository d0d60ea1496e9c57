/-
What is known about names from outside the project.
-/

namespace EffectGraph.Builtin

/-- The names that every module sees without binding them. -/
def names : List String :=
  ["ArithmeticError", "AssertionError", "AttributeError", "BaseException", "BaseExceptionGroup",
   "BlockingIOError", "BrokenPipeError", "BufferError", "BytesWarning", "ChildProcessError",
   "ConnectionAbortedError", "ConnectionError", "ConnectionRefusedError", "ConnectionResetError",
   "DeprecationWarning", "EOFError", "Ellipsis", "EncodingWarning", "EnvironmentError",
   "Exception", "ExceptionGroup", "False", "FileExistsError", "FileNotFoundError",
   "FloatingPointError", "FutureWarning", "GeneratorExit", "IOError", "ImportError",
   "ImportWarning", "IndentationError", "IndexError", "InterruptedError", "IsADirectoryError",
   "KeyError", "KeyboardInterrupt", "LookupError", "MemoryError", "ModuleNotFoundError",
   "NameError", "None", "NotADirectoryError", "NotImplemented", "NotImplementedError", "OSError",
   "OverflowError", "PendingDeprecationWarning", "PermissionError", "ProcessLookupError",
   "RecursionError", "ReferenceError", "ResourceWarning", "RuntimeError", "RuntimeWarning",
   "StopAsyncIteration", "StopIteration", "SyntaxError", "SyntaxWarning", "SystemError",
   "SystemExit", "TabError", "TimeoutError", "True", "TypeError", "UnboundLocalError",
   "UnicodeDecodeError", "UnicodeEncodeError", "UnicodeError", "UnicodeTranslateError",
   "UnicodeWarning", "UserWarning", "ValueError", "Warning", "ZeroDivisionError",
   "__annotations__", "__build_class__", "__class__", "__debug__", "__delattr__", "__dict__",
   "__dir__", "__doc__", "__eq__", "__format__", "__ge__", "__getattribute__", "__getstate__",
   "__gt__", "__hash__", "__import__", "__init__", "__init_subclass__", "__le__", "__loader__",
   "__lt__", "__name__", "__ne__", "__new__", "__package__", "__reduce__", "__reduce_ex__",
   "__repr__", "__setattr__", "__sizeof__", "__spec__", "__str__", "__subclasshook__", "abs",
   "aiter", "all", "anext", "any", "ascii", "bin", "bool", "breakpoint", "bytearray", "bytes",
   "callable", "chr", "classmethod", "compile", "complex", "copyright", "credits", "delattr",
   "dict", "dir", "divmod", "enumerate", "eval", "exec", "exit", "filter", "float", "format",
   "frozenset", "getattr", "globals", "hasattr", "hash", "help", "hex", "id", "input", "int",
   "isinstance", "issubclass", "iter", "len", "license", "list", "locals", "map", "max",
   "memoryview", "min", "next", "object", "oct", "open", "ord", "pow", "print", "property",
   "quit", "range", "repr", "reversed", "round", "set", "setattr", "slice", "sorted",
   "staticmethod", "str", "sum", "super", "tuple", "type", "vars", "zip"]

/-- Calls whose result can be awaited. -/
def awaitableCalls : List String :=
  ["asyncio.sleep", "asyncio.gather", "asyncio.wait", "asyncio.wait_for", "asyncio.shield",
   "asyncio.create_task", "asyncio.ensure_future", "asyncio.to_thread", "asyncio.wrap_future",
   "asyncio.open_connection", "asyncio.open_unix_connection", "asyncio.start_server",
   "asyncio.create_subprocess_exec", "asyncio.create_subprocess_shell",
   "asyncio.AbstractEventLoop.run_in_executor", "asyncio.AbstractEventLoop.create_task",
   "asyncio.AbstractEventLoop.sock_recv", "asyncio.AbstractEventLoop.sock_sendall", "anyio.sleep",
   "trio.sleep"]

/-- Calls whose result is known to be of some type. -/
def resultTypes : List (String × String) :=
  [("asyncio.get_event_loop", "asyncio.AbstractEventLoop"),
   ("asyncio.get_running_loop", "asyncio.AbstractEventLoop"),
   ("asyncio.new_event_loop", "asyncio.AbstractEventLoop")]

end EffectGraph.Builtin
