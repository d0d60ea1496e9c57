/-
The frontend that the program runs with.
-/
import EffectGraph.Cli.Arguments
import EffectGraph.Report.Markup

namespace EffectGraph

/-- A console that prints the text around the tags. -/
def Console.standard : Console where
  marked? := Markup.printed?
  plain := id

def Cli.Frontend.standard : Frontend where
  toConsole := .standard
  command := commandOf
  escape := Markup.escape

end EffectGraph
