/-
The modules that every hook module builds on.

The context hooks are written anew by every run; the utility and common
modules carry the sentinel and belong to authors once it is gone.
-/
import ScreenHooks.Hook.Lines
import ScreenHooks.Hook.Module

namespace ScreenHooks.Hook

open Text

/-- The union of the shared models as a type. -/
def sharedModelUnion (models : List String) : String :=
  if models.isEmpty then "never" else String.intercalate " | " (models.map singleQuoted)

/-- The text of the shared accessor factory. -/
def contextHooksText (settings : Settings) : String :=
  endLines <|
    [generatedHeader,
     "// Context hooks shared by every screen module",
     "",
     importLine ["useMemo"] "'react'",
     "",
     "export type SharedContextModel = " ++ sharedModelUnion settings.sharedModels ++ ";",
     "",
     "export function " ++ contextHooksFactory ++
       "<T extends Partial<Record<SharedContextModel, unknown>>>(",
     "  getInstance: () => T",
     ") \x7b",
     "  const accessor =",
     "    <K extends SharedContextModel>(key: K) =>",
     "    (): T[K] =>",
     "      useMemo(() => getInstance()[key], []);",
     "",
     "  return \x7b"] ++
    settings.sharedModels.map (fun model =>
      "    " ++ accessorName model ++ ": accessor(" ++ singleQuoted model ++ "),") ++
    ["  \x7d;", "\x7d"]

/-- The text of the resend helper. -/
def utilityText (settings : Settings) : String :=
  endLines
    ["// " ++ settings.sentinel,
     "// Default resend countdown helper. Delete the marker line above before",
     "// editing, otherwise the next generation run will overwrite this file.",
     "",
     importLine ["useEffect", "useMemo", "useState"] "'react'",
     "",
     "export interface UseResendOptions \x7b",
     "  timeoutSeconds?: number;",
     "  onTimeout?: () => void;",
     "\x7d",
     "",
     "export interface UseResendReturn \x7b",
     "  remaining: number;",
     "  disabled: boolean;",
     "  startResend: () => void;",
     "\x7d",
     "",
     "type ResendControl = \x7b startResend: () => void | Promise<void> \x7d;",
     "",
     "type ResendFactory = (",
     "  options: UseResendOptions & \x7b onStatusChange?: (remaining: number, disabled: boolean) => void \x7d",
     ") => ResendControl;",
     "",
     "export function useResendCountdown(",
     "  factory: ResendFactory,",
     "  options: UseResendOptions = \x7b\x7d",
     "): UseResendReturn \x7b",
     "  const [remaining, setRemaining] = useState(0);",
     "  const [disabled, setDisabled] = useState(false);",
     "",
     "  const control = useMemo(",
     "    () =>",
     "      factory(\x7b",
     "        ...options,",
     "        onStatusChange: (left, isDisabled) => \x7b",
     "          setRemaining(left);",
     "          setDisabled(isDisabled);",
     "        \x7d,",
     "      \x7d),",
     "    []",
     "  );",
     "",
     "  useEffect(() => () => setDisabled(false), []);",
     "",
     "  return \x7b remaining, disabled, startResend: () => void control.startResend() \x7d;",
     "\x7d"]

/-- The text of the module of further shared hooks. -/
def commonText (settings : Settings) : String :=
  endLines
    ["// " ++ settings.sentinel,
     "// Shared hooks exported from the package root. Delete the marker line",
     "// above before editing, otherwise the next generation run will",
     "// overwrite this file.",
     "",
     exportLine ["getCurrentScreen"] (singleQuoted settings.package)]

end ScreenHooks.Hook
