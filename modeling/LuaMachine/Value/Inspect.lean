import LuaMachine.Text.Quoted
import LuaMachine.Value

namespace LuaMachine.Value

def inspect : Value → String
  | string s => Text.quote (Utf8.lossy s)
  | v => v.display

end LuaMachine.Value
