import PluginGuard.Hook.Injection

/-!
# Injections that are always made

The host's own methods that are watched, and the bracket of frame hooks around
the entry points of each plugin's main class.
-/
namespace PluginGuard

def Hook.runtimeClass : String := "warden/runtime/Hooks"

def Hook.runtime (name : String) : Hook := ⟨Hook.runtimeClass, name⟩

namespace Injection

def call (id : String) (target : MethodTarget) (hook : Hook) (position : Position) : Injection :=
  ⟨id, target, .call hook position⟩

def privilegeGrant : Injection :=
  call "privilege-grant-monitor"
    (.of "org/bukkit/craftbukkit/entity/CraftPlayer" "setOp" "(Z)V")
    (.runtime "privilegeGrant") .begin

def commandDispatch : Injection :=
  call "command-dispatch-monitor"
    (.of "org/bukkit/craftbukkit/CraftServer" "dispatchCommand"
      "(Lorg/bukkit/command/CommandSender;Ljava/lang/String;)Z")
    (.runtime "commandDispatch") .begin

def chat : Injection :=
  call "chat-monitor"
    (.of "net/minecraft/server/network/ServerGamePacketListenerImpl" "handleChat"
      "(Ljava/lang/String;)V")
    (.runtime "chatMessage") .begin

/-- The host's own security manager would hide accesses from the checks. -/
def securityManager : Injection where
  id := "security-manager-excision"
  target := .of "org/bukkit/craftbukkit/Main" "main" "([Ljava/lang/String;)V"
  edit := .excise
    [⟨ClassFile.Opcode.aconstNull, none⟩,
      ⟨ClassFile.Opcode.invokeStatic,
        some ⟨"java/lang/System", "setSecurityManager", "(Ljava/lang/SecurityManager;)V"⟩⟩]

def builtin : List Injection := [privilegeGrant, commandDispatch, chat, securityManager]

/-- Methods of a plugin's main class through which its code is entered. -/
def entryPoints : List String := ["onEnable", "onDisable", "onLoad"]

def frame (mainClass entry : String) : List Injection :=
  let target := MethodTarget.of mainClass entry "()V"
  [call s!"enter-frame:{target.display}" target (.runtime "enterPlugin") .begin,
    call s!"exit-frame:{target.display}" target (.runtime "exitPlugin") .end_]

def frames (mainClasses : List String) : List Injection :=
  mainClasses.flatMap fun c => entryPoints.flatMap (frame c)

end Injection

end PluginGuard
