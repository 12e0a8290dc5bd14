import Ytdlpdroid.Text.Basic

namespace Ytdlpdroid

open Text

-- The scripts that the full-player path runs before and after the player's own.
namespace PlayerScripts

-- The lines of the browser stubs, from the opening to the closing quotes.
def browserShimLines : List Str :=
  [[],
    str "var self=globalThis;",
    str "if(typeof document==='undefined')\x7bvar document=\x7bcreateElement:function()\x7breturn\x7bstyle:\x7b" ++
      str "\x7d,setAttribute:function()\x7b\x7d,appendChild:function()\x7b\x7d,addEventListener:function()\x7b\x7d," ++
      str "classList:\x7badd:function()\x7b\x7d,remove:function()\x7b\x7d\x7d\x7d;\x7d,getElementById:function()" ++
      str "\x7breturn null;\x7d,querySelector:function()\x7breturn null;\x7d,querySelectorAll:function()\x7breturn" ++
      str "\x7blength:0,forEach:function()\x7b\x7d\x7d;\x7d,head:\x7bappendChild:function()\x7b\x7d,querySelector:f" ++
      str "unction()\x7breturn null;\x7d,insertBefore:function()\x7b\x7d\x7d,body:\x7bappendChild:function()\x7b" ++
      str "\x7d,insertBefore:function()\x7b\x7d\x7d,addEventListener:function()\x7b\x7d,createTextNode:function(t)" ++
      str "\x7breturn\x7btextContent:t\x7d;\x7d\x7d\x7d",
    str "if(typeof navigator==='undefined')\x7bvar navigator=\x7buserAgent:'Mozilla/5.0',platform:'Win32',languag" ++
      str "e:'en-US',languages:['en-US'],cookieEnabled:true\x7d\x7d",
    str "if(typeof location==='undefined')\x7bvar location=\x7bhref:'https://www.youtube.com/',origin:'https://ww" ++
      str "w.youtube.com',hostname:'www.youtube.com',protocol:'https:',pathname:'/',search:'',hash:''\x7d\x7d",
    str "if(typeof localStorage==='undefined')\x7bvar localStorage=\x7bgetItem:function()\x7breturn null;\x7d,set" ++
      str "Item:function()\x7b\x7d,removeItem:function()\x7b\x7d,clear:function()\x7b\x7d,length:0\x7d\x7d",
    str "if(typeof sessionStorage==='undefined')\x7bvar sessionStorage=\x7bgetItem:function()\x7breturn null;\x7d" ++
      str ",setItem:function()\x7b\x7d,removeItem:function()\x7b\x7d\x7d\x7d",
    str "if(typeof performance==='undefined')\x7bvar performance=\x7bnow:function()\x7breturn Date.now();\x7d,tim" ++
      str "ing:\x7bnavigationStart:0\x7d\x7d\x7d",
    str "if(typeof XMLHttpRequest==='undefined')\x7bvar XMLHttpRequest=function()\x7bthis.open=function()\x7b\x7d" ++
      str ";this.send=function()\x7b\x7d;this.setRequestHeader=function()\x7b\x7d;this.addEventListener=function()" ++
      str "\x7b\x7d;\x7d\x7d",
    str "if(typeof fetch==='undefined')\x7bvar fetch=function()\x7breturn Promise.reject(new Error('no fetch'));" ++
      str "\x7d\x7d",
    str "if(typeof MutationObserver==='undefined')\x7bvar MutationObserver=function(fn)\x7bthis.observe=function(" ++
      str ")\x7b\x7d;this.disconnect=function()\x7b\x7d;\x7d\x7d",
    str "if(typeof requestAnimationFrame==='undefined')\x7bvar requestAnimationFrame=function(fn)\x7breturn 0;" ++
      str "\x7d;\x7d",
    str "if(typeof screen==='undefined')\x7bvar screen=\x7bwidth:1920,height:1080,colorDepth:24\x7d;\x7d",
    str "if(typeof crypto==='undefined')\x7bvar crypto=\x7bgetRandomValues:function(a)\x7bfor(var i=0;i<a.length;" ++
      str "i++)a[i]=Math.floor(Math.random()*256);return a;\x7d\x7d;\x7d",
    []]

-- Minimal browser stubs.
def browserShim : Str := trimIndent (joinLines browserShimLines)

def ti : Str := str "abcdefghijklmnopq"

def ti2 : Str := str "qponmlkjihgfedcbaZ"

def discoveryLines (escapedN : Str) : List Str :=
  [[],
    str "(function() \x7b",
    str "    var nVal=\"" ++ escapedN ++ str "\",ti=\"" ++ ti ++ str "\",ti2=\"" ++ ti2 ++
    str "\",res=nVal;",
    str "    function ok(r,i)\x7breturn typeof r==='string'&&r!==i&&r!=='undefined'&&r!=='null'&&r.indexOf('=')<0" ++
      str "&&r.indexOf('+')<0&&r.indexOf('/')<0&&r.indexOf(':')<0&&r.length>=5&&r.length<=i.length+2&&/^[A-Za-z0-9_" ++
      str "-]+$/.test(r)&&!/^[0-9a-f]+$/.test(r);\x7d",
    str "    function isRealNsig(fn)\x7btry\x7bvar r1=fn(ti),r2=fn(ti2);return ok(r1,ti)&&ok(r2,ti2)&&r1!==r2;" ++
      str "\x7dcatch(e)\x7breturn false;\x7d\x7d",
    str "    try\x7b",
    str "        // _yt_player is the `g` param of the IIFE — all player functions assigned to g are here.",
    str "        var g=globalThis._yt_player||\x7b\x7d;",
    str "        var keys=Object.keys(g).filter(function(k)\x7breturn k.length>=2&&k.length<=4&&typeof g[k]==='fu" ++
      str "nction';\x7d);",
    str "        for(var i=0;i<keys.length;i++)\x7bvar k=keys[i];if(isRealNsig(g[k]))\x7bres=g[k](nVal);break;" ++
      str "\x7d\x7d",
    str "    \x7dcatch(e)\x7b\x7d",
    str "    return res;",
    str "\x7d)()",
    []]

def buildDiscoveryScript (escapedN : Str) : Str := trimIndent (joinLines (discoveryLines escapedN))

end PlayerScripts

end Ytdlpdroid
